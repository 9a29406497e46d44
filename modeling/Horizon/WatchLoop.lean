/-
**The watch loop of the web process.**

`publish_watch_loop` keeps the sequence number and the generation of the last frame it accepted,
connects with them as its cursor, and skips every frame that is not above them.  The daemon may be
restarted at any time, and its new hub numbers from zero again; the connection may break; a
heartbeat whose wait has run out may overtake an event that arrives at that moment.  A frame that
was written before the daemon went away can still be read.

Main results:

* `Web.orderly_recovers` — **in every orderly run the loop recovers**.
-/

import Horizon.WatchGaps

namespace Horizon.Web

open Transition (run)
open List
open Option

variable {P : Type}

/-! ### The loop -/

/-- The answer to the `GetStatus` call of a resynchronisation. -/
inductive StatusAnswer (P : Type)
  | success (payload : P)
  | failure
  | raised

inductive Handling (P : Type)
  | skipped
  | heartbeat
  | resynced (payload : P)
  | resyncFailed
  | forwarded (kind : String) (payload : Option P)
  deriving DecidableEq

/-- The variables `cursor` and `generation` of `publish_watch_loop`. -/
structure Loop where
  cursor : ℕ := 0
  generation : ℤ := 0
  deriving DecidableEq

/-- The skip rule: `sequence <= cursor or frame_generation < generation`. -/
def Loop.Skips (loop : Loop) (frame : WatchEvent P) : Prop :=
  frame.sequence ≤ loop.cursor ∨ frame.generation < loop.generation

instance (loop : Loop) (frame : WatchEvent P) : Decidable (loop.Skips frame) :=
  inferInstanceAs (Decidable (_ ∨ _))

/-- The outcome of the resynchronisation that a marker asks for. -/
def StatusAnswer.handling : StatusAnswer P → Handling P
  | .success payload => .resynced payload
  | .failure => .resyncFailed
  | .raised => .resyncFailed

/-- The body of the `async for` of `publish_watch_loop`. -/
def Loop.handle (loop : Loop) (frame : WatchEvent P) (answer : StatusAnswer P) :
    Loop × Handling P :=
  if loop.Skips frame then (loop, .skipped)
  else
    (⟨frame.sequence, frame.generation⟩,
      if frame.kind = "heartbeat" then .heartbeat
      else if frame.kind = "full_resync" then answer.handling
      else .forwarded (if frame.kind = "get_status" then "status" else frame.kind) frame.payload)

/-- The call of a resynchronisation raises, which ends the connection. -/
def Loop.raises (loop : Loop) (frame : WatchEvent P) : StatusAnswer P → Bool
  | .raised => !decide (loop.Skips frame) && frame.kind = "full_resync"
  | _ => false

/-! ### Daemon, connection and loop -/

/-- A connection: the daemon and the client number it was made with, whether the daemon waits for
an event, and the frames that are written and not yet read. -/
structure Link (P : Type) where
  daemon : ℕ
  ident : ℕ
  waiting : Bool := false
  wire : List (WatchEvent P) := []

/-- A frame that was read, with the number of the daemon that wrote it. -/
structure Reading (P : Type) where
  daemon : ℕ
  frame : WatchEvent P
  handling : Handling P
  deriving DecidableEq

/-- The current daemon's hub, the connection and the loop. -/
structure World (P : Type) where
  daemon : ℕ := 0
  feed : WatchFeed P
  link : Option (Link P) := none
  loop : Loop := {}
  readings : List (Reading P) := []

/-- What can happen.  `call` is a call on the hub that is not the connection's own; `drop` is a
connection that fails on the side of the loop. -/
inductive Event (P : Type)
  | call (call : WatchCall P)
  | restart (bounds : HubBounds)
  | connect
  | wait
  | send
  | timeout
  | read (answer : StatusAnswer P)
  | drop

def Loop.watchCursor (loop : Loop) : WatchCursor := ⟨loop.cursor, loop.generation.toNat⟩

/-- The client of a connection, while its daemon runs and has not cut it off. -/
def World.client (w : World P) (link : Link P) : Option (WatchClient P) :=
  if link.daemon = w.daemon then w.feed.hub.clientMap link.ident else none

def World.foreign (w : World P) : WatchCall P → Bool
  | .take ident => w.link.all fun link => link.daemon ≠ w.daemon || link.ident ≠ ident
  | _ => true

def beat (hub : WatchHub P) : WatchEvent P :=
  ⟨hub.sequence, hub.generation, "heartbeat", none, false⟩

def step (w : World P) : Event P → Option (World P)
  | .call call =>
    if w.foreign call then (feedStep w.feed call).map fun feed => { w with feed := feed } else none
  | .restart bounds => some { w with daemon := w.daemon + 1, feed := .start bounds }
  | .connect =>
    match w.link with
    | some _ => none
    | none =>
      (feedStep w.feed (.subscribe w.loop.watchCursor)).map fun feed =>
        { w with feed := feed, link := some ⟨w.daemon, w.feed.hub.nextClient + 1, false, []⟩ }
  | .wait => do
    let link ← w.link
    let client ← w.client link
    if client.queue = [] then some { w with link := some { link with waiting := true } } else none
  | .send => do
    let link ← w.link
    let client ← w.client link
    let item ← client.queue.head?
    let feed ← feedStep w.feed (.take link.ident)
    some { w with feed := feed
                  link := some { link with waiting := false, wire := link.wire ++ [item] } }
  | .timeout => do
    let link ← w.link
    let _ ← w.client link
    if link.waiting then
      some { w with link := some { link with waiting := false
                                             wire := link.wire ++ [beat w.feed.hub] } }
    else none
  | .read answer =>
    match w.link with
    | none => none
    | some link =>
      match link.wire with
      | [] => none
      | frame :: rest =>
        let out := w.loop.handle frame answer
        some { w with loop := out.1
                      link := if w.loop.raises frame answer then none
                        else some { link with wire := rest }
                      readings := w.readings ++ [⟨link.daemon, frame, out.2⟩] }
  | .drop =>
    match w.link with
    | none => none
    | some _ => some { w with link := none }

/-! ### Recovery -/

/-- A frame with a status; `get_status` is what older brokers call it. -/
def Reading.Status (reading : Reading P) : Prop :=
  reading.frame.kind = "status" ∨ reading.frame.kind = "get_status"

/-- The loop has published a status: that of the frame, or that of a resynchronisation. -/
def Reading.Publishes (reading : Reading P) : Prop :=
  (∃ payload, reading.handling = .forwarded "status" payload) ∨
    ∃ payload, reading.handling = .resynced payload

/-- Every status frame is forwarded or followed by a published status of the same daemon, and after
a resynchronisation that failed a status is published before a frame is skipped. -/
structure Recovers (readings : List (Reading P)) : Prop where
  status : ∀ before reading after, readings = before ++ reading :: after → reading.Status →
    reading.Publishes ∨ ∃ later ∈ after, later.daemon = reading.daemon ∧ later.Publishes
  resync : ∀ before failed between skipped after,
    readings = before ++ failed :: (between ++ skipped :: after) →
    failed.handling = .resyncFailed → skipped.handling = .skipped →
    ∃ reading ∈ between, reading.Publishes

/-- Is a resynchronisation outstanding after this frame?  `before` is the answer before it: a status
call that failed leaves one, and a published status settles it. -/
def Handling.outstanding (before : Bool) : Handling P → Bool
  | .resyncFailed => true
  | .resynced _ => false
  | .forwarded kind _ => before && kind ≠ "status"
  | _ => before

def outstanding (readings : List (Reading P)) : Bool :=
  readings.foldl (fun before reading => reading.handling.outstanding before) false

/-- A cursor that is not ahead of the hub, and whose backlog lies above it. -/
structure InStep (hub : WatchHub P) (cursor : WatchCursor) : Prop where
  sequence : cursor.sequence ≤ hub.sequence
  generation : (cursor.generation : ℤ) ≤ hub.generation
  backlog : ∀ item ∈ hub.backlog cursor,
    cursor.sequence < item.sequence ∧ (cursor.generation : ℤ) ≤ item.generation

instance (hub : WatchHub P) (cursor : WatchCursor) : Decidable (InStep hub cursor) :=
  decidable_of_iff (cursor.sequence ≤ hub.sequence ∧ (cursor.generation : ℤ) ≤ hub.generation ∧
      ∀ item ∈ hub.backlog cursor,
        cursor.sequence < item.sequence ∧ (cursor.generation : ℤ) ≤ item.generation)
    ⟨fun h => ⟨h.1, h.2.1, h.2.2⟩, fun h => ⟨h.sequence, h.generation, h.backlog⟩⟩

/-- The condition on a step: the loop connects with a cursor that is in step with the hub, no event
arrives between the end of a wait and its heartbeat, and while a resynchronisation is outstanding a
heartbeat is read only if the hub has moved on. -/
def Orderly (w : World P) (event : Event P) (_ : World P) : Prop :=
  match event with
  | .connect => InStep w.feed.hub w.loop.watchCursor
  | .timeout => ∀ link ∈ w.link, ∀ client ∈ w.client link, client.queue = []
  | .read _ => ∀ link ∈ w.link, ∀ frame ∈ link.wire.head?,
      outstanding w.readings = true → frame.kind = "heartbeat" → ¬ w.loop.Skips frame
  | _ => True

instance (w w' : World P) (event : Event P) : Decidable (Orderly w event w') :=
  match event with
  | .connect => inferInstanceAs (Decidable (InStep _ _))
  | .timeout => inferInstanceAs (Decidable (∀ link ∈ w.link, ∀ client ∈ w.client link, _ = []))
  | .read _ => inferInstanceAs (Decidable (∀ link ∈ w.link, ∀ frame ∈ link.wire.head?,
      outstanding w.readings = true → frame.kind = "heartbeat" → ¬ w.loop.Skips frame))
  | .call _ | .restart _ | .wait | .send | .drop => isTrue trivial

/-! ### The invariant -/

/-- The frames on their way to the loop ascend from its cursor; heartbeats may repeat a number. -/
structure Ahead (loop : Loop) (frames : List (WatchEvent P)) : Prop where
  above : ∀ frame ∈ frames, frame.kind ≠ "heartbeat" →
    loop.cursor < frame.sequence ∧ loop.generation ≤ frame.generation
  ascending : frames.Pairwise fun a b => b.kind ≠ "heartbeat" →
    a.sequence < b.sequence ∧ a.generation ≤ b.generation
  nonneg : ∀ frame ∈ frames, 0 ≤ frame.generation

variable {loop : Loop} {frames : List (WatchEvent P)} {answer : StatusAnswer P} (bounds : HubBounds)

theorem Ahead.sublist {frames frames' : List (WatchEvent P)} (h : Ahead loop frames)
    (hsub : frames'.Sublist frames) : Ahead loop frames' :=
  ⟨fun frame hframe => h.above frame (hsub.subset hframe), h.ascending.sublist hsub,
    fun frame hframe => h.nonneg frame (hsub.subset hframe)⟩

theorem Ahead.push {item : WatchEvent P} (h : Ahead loop frames) (hnonneg : 0 ≤ item.generation)
    (habove : item.kind ≠ "heartbeat" →
      loop.cursor < item.sequence ∧ loop.generation ≤ item.generation)
    (hlast : ∀ frame ∈ frames, item.kind ≠ "heartbeat" →
      frame.sequence < item.sequence ∧ frame.generation ≤ item.generation) :
    Ahead loop (frames ++ [item]) where
  above := by
    intro frame hframe
    rcases mem_append.1 hframe with hframe | hframe
    · exact h.above frame hframe
    · rw [mem_singleton.1 hframe]
      exact habove
  ascending := by
    rw [pairwise_append]
    refine ⟨h.ascending, pairwise_singleton _ _, fun frame hframe b hb => ?_⟩
    rw [mem_singleton.1 hb]
    exact hlast frame hframe
  nonneg := by
    intro frame hframe
    rcases mem_append.1 hframe with hframe | hframe
    · exact h.nonneg frame hframe
    · rw [mem_singleton.1 hframe]
      exact hnonneg

theorem Ahead.read {frame : WatchEvent P} {rest : List (WatchEvent P)}
    (h : Ahead loop (frame :: rest)) (answer : StatusAnswer P) :
    Ahead (loop.handle frame answer).1 rest := by
  have hrest := h.sublist (sublist_cons_self frame rest)
  unfold Loop.handle
  split
  · exact hrest
  · refine ⟨fun b hb hkind => ?_, hrest.ascending, hrest.nonneg⟩
    exact (pairwise_cons.1 h.ascending).1 b hb hkind

theorem Ahead.not_skips {frame : WatchEvent P} {rest : List (WatchEvent P)}
    (h : Ahead loop (frame :: rest)) (hkind : frame.kind ≠ "heartbeat") : ¬ loop.Skips frame := by
  obtain ⟨hsequence, hgeneration⟩ := h.above frame (.head _) hkind
  rintro (hle | hlt)
  · omega
  · omega

def World.queue (w : World P) (link : Link P) : List (WatchEvent P) :=
  (w.client link).elim [] (·.queue)

/-- While the daemon of a connection runs, its counters bound what is on the way and the loop. -/
structure Bounded (hub : WatchHub P) (loop : Loop) (link : Link P) : Prop where
  cursor : loop.cursor ≤ hub.sequence
  generation : loop.generation ≤ hub.generation
  ident : link.ident ≤ hub.nextClient
  wire : ∀ frame ∈ link.wire, frame.sequence ≤ hub.sequence ∧ frame.generation ≤ hub.generation

structure Steady (w : World P) : Prop where
  sane : w.feed.Sane
  nonneg : 0 ≤ w.loop.generation
  forwards : ∀ reading ∈ w.readings, reading.Status → reading.Publishes
  resyncs : ∀ before skipped after, w.readings = before ++ skipped :: after →
    skipped.handling = .skipped → outstanding before = false
  daemon : ∀ link, w.link = some link → link.daemon ≤ w.daemon
  ahead : ∀ link, w.link = some link → Ahead w.loop (link.wire ++ w.queue link)
  bounded : ∀ link, w.link = some link → link.daemon = w.daemon → Bounded w.feed.hub w.loop link

theorem Handling.publishes_of_settled {reading : Reading P}
    (h : reading.handling.outstanding true = false) : reading.Publishes := by
  cases hhandling : reading.handling with
  | resynced payload => exact .inr ⟨payload, hhandling⟩
  | forwarded kind payload =>
    rw [hhandling] at h
    have hkind : kind = "status" := by simpa [Handling.outstanding] using h
    exact .inl ⟨payload, hkind ▸ hhandling⟩
  | skipped | heartbeat | resyncFailed =>
    rw [hhandling] at h
    cases h

/-- What a failed status call leaves is settled by a published status only. -/
theorem publishes_of_outstanding {before between : List (Reading P)} {failed : Reading P}
    (hfailed : failed.handling = .resyncFailed)
    (h : outstanding (before ++ failed :: between) = false) :
    ∃ reading ∈ between, reading.Publishes := by
  rw [outstanding, foldl_append, foldl_cons, hfailed] at h
  change between.foldl _ true = false at h
  induction between with
  | nil => cases h
  | cons reading between ih =>
    rw [foldl_cons] at h
    cases hreading : reading.handling.outstanding true with
    | false => exact ⟨reading, .head _, Handling.publishes_of_settled hreading⟩
    | true =>
      rw [hreading] at h
      obtain ⟨later, hlater, hpublishes⟩ := ih h
      exact ⟨later, .tail _ hlater, hpublishes⟩

/-- With every status published, and no frame skipped while a resynchronisation is outstanding, the
loop recovers. -/
theorem Steady.recovers {w : World P} (h : Steady w) : Recovers w.readings where
  status := by
    intro before reading after heq hstatus
    refine .inl (h.forwards reading ?_ hstatus)
    rw [heq]
    exact mem_append_right _ (.head _)
  resync := by
    intro before failed between skipped after heq hfailed hskipped
    have hsettled : outstanding (before ++ failed :: between) = false := by
      refine h.resyncs _ skipped after ?_ hskipped
      rw [heq, append_assoc, cons_append]
    exact publishes_of_outstanding hfailed hsettled

theorem start_steady :
    Steady ({ feed := .start bounds } : World P) where
  sane := WatchFeed.start_sane bounds
  nonneg := le_rfl
  forwards := nofun
  resyncs := fun before _ _ h => absurd h (by cases before <;> simp)
  daemon := fun _ h => absurd h.symm (some_ne_none _)
  ahead := fun _ h => absurd h.symm (some_ne_none _)
  bounded := fun _ h => absurd h.symm (some_ne_none _)

/-! ### The step lemma -/

section Step

variable {w w' : World P}

variable {link : Link P}

variable {item : WatchEvent P}

theorem Steady.queue_proper (h : Steady w) (hitem : item ∈ w.queue link) :
    item.sequence ≤ w.feed.hub.sequence ∧ item.generation ≤ w.feed.hub.generation ∧
      0 ≤ item.generation := by
  unfold World.queue World.client at hitem
  split at hitem
  · cases hclient : w.feed.hub.clientMap link.ident with
    | none =>
      rw [hclient] at hitem
      cases hitem
    | some client =>
      rw [hclient] at hitem
      have hproper := h.sane.proper item (h.sane.queued_issued _ client hclient item hitem)
      exact ⟨hproper.sequence, hproper.generation, hproper.nonneg⟩
  · cases hitem

variable {frame : WatchEvent P}

theorem Steady.frame_le (h : Steady w) (hlink : w.link = some link)
    (hdaemon : link.daemon = w.daemon) (hframe : frame ∈ link.wire ++ w.queue link) :
    frame.sequence ≤ w.feed.hub.sequence ∧ frame.generation ≤ w.feed.hub.generation := by
  rcases mem_append.1 hframe with hframe | hframe
  · exact (h.bounded link hlink hdaemon).wire frame hframe
  · obtain ⟨hsequence, hgeneration, -⟩ := h.queue_proper hframe
    exact ⟨hsequence, hgeneration⟩

open World

theorem World.queue_of_ne (hdaemon : link.daemon ≠ w.daemon) : w.queue link = [] := by
  rw [queue, client, if_neg hdaemon]
  rfl

theorem World.queue_of_eq (hdaemon : link.daemon = w.daemon) :
    w.queue link = (w.feed.hub.clientMap link.ident).elim [] (·.queue) := by
  rw [queue, client, if_pos hdaemon]

theorem Bounded.grow {hub hub' : WatchHub P}
    (h : Bounded hub loop link) (hgrown : Grown hub hub') : Bounded hub' loop link :=
  ⟨h.cursor.trans hgrown.sequence, h.generation.trans hgrown.generation,
    h.ident.trans hgrown.nextClient, fun frame hframe =>
      ⟨(h.wire frame hframe).1.trans hgrown.sequence,
        (h.wire frame hframe).2.trans hgrown.generation⟩⟩

theorem Steady.push (h : Steady w) (hlink : w.link = some link) (hdaemon : link.daemon = w.daemon)
    (hsub : frames.Sublist (link.wire ++ w.queue link))
    (hsequence : w.feed.hub.sequence < item.sequence)
    (hgeneration : w.feed.hub.generation ≤ item.generation) : Ahead w.loop (frames ++ [item]) := by
  have hbound := h.bounded link hlink hdaemon
  refine ((h.ahead link hlink).sublist hsub).push (h.sane.nonneg.trans hgeneration)
    (fun _ => ⟨hbound.cursor.trans_lt hsequence, hbound.generation.trans hgeneration⟩)
    fun frame hframe _ => ?_
  obtain ⟨hseq, hgen⟩ := h.frame_le hlink hdaemon (hsub.subset hframe)
  exact ⟨hseq.trans_lt hsequence, hgen.trans hgeneration⟩

theorem Steady.ahead_call (h : Steady w) (hlink : w.link = some link)
    (hdaemon : link.daemon = w.daemon) {hub : WatchHub P}
    (hclients : ∀ client', hub.clientMap link.ident = some client' →
      ∃ client, w.feed.hub.clientMap link.ident = some client ∧ Nudged w.feed.hub client client') :
    Ahead w.loop (link.wire ++ (hub.clientMap link.ident).elim [] (·.queue)) := by
  have hahead := h.ahead link hlink
  cases hclient' : hub.clientMap link.ident with
  | none => exact hahead.sublist ((append_nil _).symm ▸ sublist_append_left _ _)
  | some client' =>
    obtain ⟨client, hclient, hsame | ⟨item, hseq, hgen, hqueue | hqueue⟩⟩ :=
      hclients client' hclient'
    all_goals
      have hold : w.queue link = client.queue := by
        rw [queue_of_eq hdaemon, hclient]
        rfl
    · rw [hold, ← hsame] at hahead
      exact hahead
    · have hpush := h.push hlink hdaemon (List.Sublist.refl _) hseq hgen
      rw [hold, append_assoc, ← hqueue] at hpush
      exact hpush
    · have hpush := h.push hlink hdaemon (sublist_append_left _ _) hseq hgen
      rw [← hqueue] at hpush
      exact hpush

variable {feed : WatchFeed P}

theorem Steady.call (h : Steady w) {call : WatchCall P} (hforeign : w.foreign call = true)
    (hstep : feedStep w.feed call = some feed) : Steady { w with feed := feed } := by
  have hclient : ∀ link, w.link = some link → link.daemon = w.daemon →
      Grown w.feed.hub feed.hub ∧ ∀ client', feed.hub.clientMap link.ident = some client' →
        ∃ client, w.feed.hub.clientMap link.ident = some client ∧
          Nudged w.feed.hub client client' := by
    intro link hlink hdaemon
    refine feedStep_client h.sane hstep (h.bounded link hlink hdaemon).ident ?_
    rintro rfl
    simp [World.foreign, hlink, hdaemon] at hforeign
  refine ⟨feedStep_sane h.sane hstep, h.nonneg, h.forwards, h.resyncs, h.daemon, ?_, ?_⟩
  · intro link hlink
    by_cases hdaemon : link.daemon = w.daemon
    · have hqueue : queue { w with feed := feed } link =
          (feed.hub.clientMap link.ident).elim [] (·.queue) := queue_of_eq hdaemon
      rw [hqueue]
      exact h.ahead_call hlink hdaemon (hclient link hlink hdaemon).2
    · have hqueue : queue { w with feed := feed } link = [] := queue_of_ne hdaemon
      rw [hqueue, ← queue_of_ne hdaemon]
      exact h.ahead link hlink
  · intro link hlink hdaemon
    exact (h.bounded link hlink hdaemon).grow (hclient link hlink hdaemon).1

theorem Steady.restart (h : Steady w) (bounds : HubBounds) :
    Steady { w with daemon := w.daemon + 1, feed := .start bounds } := by
  have hgone : ∀ link, w.link = some link → link.daemon ≠ w.daemon + 1 := by
    intro link hlink
    have hle := h.daemon link hlink
    omega
  refine ⟨WatchFeed.start_sane bounds, h.nonneg, h.forwards, h.resyncs,
    fun link hlink => (h.daemon link hlink).trans (Nat.le_succ _), ?_,
    fun link hlink hdaemon => absurd hdaemon (hgone link hlink)⟩
  intro link hlink
  have hqueue : queue { w with daemon := w.daemon + 1, feed := .start bounds } link = [] :=
    queue_of_ne (hgone link hlink)
  rw [hqueue, append_nil]
  exact (h.ahead link hlink).sublist (sublist_append_left _ _)

theorem Steady.connect (h : Steady w) (hinStep : InStep w.feed.hub w.loop.watchCursor) :
    Steady { w with
      feed := w.feed.moved (w.feed.hub.subscribe w.loop.watchCursor).2 []
      link := some ⟨w.daemon, w.feed.hub.nextClient + 1, false, []⟩ } := by
  have hcaught := WatchHub.catchUp_caught w.feed.hub w.loop.watchCursor
    ⟨[], w.loop.watchCursor.sequence, w.loop.watchCursor.generation, 0, false, false⟩ rfl rfl
  have hgen : (w.loop.watchCursor.generation : ℤ) = w.loop.generation :=
    Int.toNat_of_nonneg h.nonneg
  have hsane := h.sane.subscribe w.loop.watchCursor
  have hnonneg : ∀ item ∈ w.feed.hub.backlog w.loop.watchCursor, 0 ≤ item.generation := by
    intro item hitem
    exact h.nonneg.trans (hgen ▸ (hinStep.backlog item hitem).2)
  refine ⟨hsane, h.nonneg, h.forwards, h.resyncs, ?_, ?_, ?_⟩
  · intro link hlink
    cases hlink
    exact le_rfl
  · intro link hlink
    cases hlink
    rw [queue_of_eq rfl]
    have hclient : (w.feed.moved (w.feed.hub.subscribe w.loop.watchCursor).2 []).hub.clientMap
        (w.feed.hub.nextClient + 1) = _ := Function.update_self _ _ _
    rw [hclient, elim_some, hcaught.queue, nil_append]
    refine ⟨fun item hitem _ => ?_, List.Pairwise.imp ?_ h.sane.backlog_ascending, hnonneg⟩
    swap
    · intro a b hab _
      exact hab
    exact ⟨(hinStep.backlog item hitem).1, hgen ▸ (hinStep.backlog item hitem).2⟩
  · intro link hlink _
    cases hlink
    exact ⟨hinStep.sequence.trans hcaught.sequence, hgen ▸ hinStep.generation, le_rfl, nofun⟩

theorem Steady.relink (h : Steady w) (hlink : w.link = some link) {link' : Link P}
    (hsane : feed.Sane) (hdaemon : link'.daemon = link.daemon)
    (hahead : Ahead w.loop (link'.wire ++ queue { w with feed := feed } link'))
    (hbounded : link.daemon = w.daemon → Bounded feed.hub w.loop link') :
    Steady { w with feed := feed, link := some link' } := by
  refine ⟨hsane, h.nonneg, h.forwards, h.resyncs, ?_, ?_, ?_⟩
  · intro l hl
    cases hl
    exact hdaemon ▸ h.daemon link hlink
  · intro l hl
    cases hl
    exact hahead
  · intro l hl hcurrent
    cases hl
    exact hbounded (hdaemon ▸ hcurrent)

variable {client : WatchClient P}

theorem World.client_eq_some (h : w.client link = some client) :
    link.daemon = w.daemon ∧ w.feed.hub.clientMap link.ident = some client := by
  unfold World.client at h
  split at h
  · rename_i hdaemon
    exact ⟨hdaemon, h⟩
  · cases h

theorem World.queue_of_client (h : w.client link = some client) : w.queue link = client.queue := by
  rw [queue, h]
  rfl

variable {rest : List (WatchEvent P)}

theorem Steady.send (h : Steady w) (hlink : w.link = some link)
    (hclient : w.client link = some client) (hqueue : client.queue = item :: rest)
    (hstep : feedStep w.feed (.take link.ident) = some feed) :
    Steady { w with
      feed := feed
      link := some { link with waiting := false, wire := link.wire ++ [item] } } := by
  obtain ⟨hdaemon, hmap⟩ := client_eq_some hclient
  have hsane := feedStep_sane h.sane hstep
  have hfeed : (w.feed.hub.take link.ident).2 = feed.hub :=
    congrArg WatchFeed.hub (some_inj.1 hstep)
  have hold := queue_of_client hclient
  have hitem : item ∈ link.wire ++ w.queue link := by
    rw [hold, hqueue]
    exact mem_append_right _ (.head _)
  have hbound := h.bounded link hlink hdaemon
  obtain ⟨-, hnext⟩ | ⟨client', item', rest', hmap', hqueue', -, hhub⟩ :=
    WatchFeed.take_cases w.feed.hub link.ident
  · simp [WatchHub.next, hmap, hqueue] at hnext
  obtain rfl := some_inj.1 (hmap.symm.trans hmap')
  rw [hqueue] at hqueue'
  obtain ⟨rfl, rfl⟩ := cons.inj hqueue'
  rw [hhub] at hfeed
  have hgrown : Grown w.feed.hub feed.hub := by
    rw [← hfeed]
    exact ⟨le_rfl, le_rfl, le_rfl⟩
  refine h.relink hlink hsane rfl ?_ fun _ => ?_
  · have hnew : feed.hub.clientMap link.ident = some { client with queue := rest } := by
      rw [← hfeed]
      exact Function.update_self _ _ _
    have hqueue' : queue { w with feed := feed }
        { link with waiting := false, wire := link.wire ++ [item] } = rest := by
      rw [queue, World.client, if_pos hdaemon]
      exact congrArg (fun entry => entry.elim [] WatchClient.queue) hnew
    have hahead := h.ahead link hlink
    rw [hold, hqueue] at hahead
    rw [hqueue', append_assoc]
    exact hahead
  · have hgrow := hbound.grow hgrown
    refine ⟨hgrow.cursor, hgrow.generation, hgrow.ident, fun frame hframe => ?_⟩
    rcases mem_append.1 hframe with hframe | hframe
    · exact hgrow.wire frame hframe
    · obtain ⟨hseq, hgen⟩ := h.frame_le hlink hdaemon hitem
      rw [mem_singleton.1 hframe]
      exact ⟨hseq.trans hgrown.sequence, hgen.trans hgrown.generation⟩

theorem Steady.timeout (h : Steady w) (hlink : w.link = some link)
    (hclient : w.client link = some client)
    (hempty : client.queue = []) :
    Steady { w with link := some { link with waiting := false
                                             wire := link.wire ++ [beat w.feed.hub] } } := by
  obtain ⟨hdaemon, -⟩ := client_eq_some hclient
  have hbound := h.bounded link hlink hdaemon
  refine h.relink hlink h.sane rfl ?_ fun _ => ⟨hbound.cursor, hbound.generation, hbound.ident, ?_⟩
  · have hahead := h.ahead link hlink
    have hqueue : queue w { link with waiting := false, wire := link.wire ++ [beat w.feed.hub] } =
        [] := (queue_of_client hclient).trans hempty
    rw [queue_of_client hclient, hempty, append_nil] at hahead
    show Ahead w.loop (link.wire ++ [beat w.feed.hub] ++ queue w _)
    rw [hqueue, append_nil]
    exact hahead.push h.sane.nonneg (fun hkind => absurd rfl hkind)
      fun _ _ hkind => absurd rfl hkind
  · intro frame hframe
    rcases mem_append.1 hframe with hframe | hframe
    · exact hbound.wire frame hframe
    · rw [mem_singleton.1 hframe]
      exact ⟨le_rfl, le_rfl⟩

theorem Loop.handle_loop (loop : Loop) (frame : WatchEvent P) (answer : StatusAnswer P) :
    (loop.handle frame answer).1 = loop ∨
      (loop.handle frame answer).1 = ⟨frame.sequence, frame.generation⟩ := by
  unfold Loop.handle
  split
  · exact .inl rfl
  · exact .inr rfl

theorem Ahead.publishes (h : Ahead loop (frame :: rest)) (answer : StatusAnswer P)
    (daemon : ℕ) (hstatus : frame.kind = "status" ∨ frame.kind = "get_status") :
    (⟨daemon, frame, (loop.handle frame answer).2⟩ : Reading P).Publishes := by
  have hkinds : frame.kind ≠ "heartbeat" ∧ frame.kind ≠ "full_resync" ∧
      (if frame.kind = "get_status" then "status" else frame.kind) = "status" := by
    rcases hstatus with hkind | hkind <;>
      · rw [hkind]
        decide
  obtain ⟨hbeat, hmarker, hforward⟩ := hkinds
  refine .inl ⟨frame.payload, ?_⟩
  show (loop.handle frame answer).2 = _
  rw [Loop.handle, if_neg (h.not_skips hbeat), if_neg hbeat, if_neg hmarker, hforward]

/-- Only heartbeats are skipped. -/
theorem Ahead.heartbeat_of_skipped (h : Ahead loop (frame :: rest))
    (hskipped : (loop.handle frame answer).2 = .skipped) :
    frame.kind = "heartbeat" ∧ loop.Skips frame := by
  have hskips : loop.Skips frame := by
    by_contra hskips
    rw [Loop.handle, if_neg hskips] at hskipped
    dsimp only at hskipped
    split_ifs at hskipped
    cases answer <;> cases hskipped
  exact ⟨by_contra fun hkind => h.not_skips hkind hskips, hskips⟩

theorem Steady.read (h : Steady w) (hlink : w.link = some link)
    (hwire : link.wire = frame :: rest)
    (hbeat : outstanding w.readings = true → frame.kind = "heartbeat" → ¬ w.loop.Skips frame) :
    Steady { w with
      loop := (w.loop.handle frame answer).1
      link := if w.loop.raises frame answer then none else some { link with wire := rest }
      readings := w.readings ++ [⟨link.daemon, frame, (w.loop.handle frame answer).2⟩] } := by
  have hahead := h.ahead link hlink
  rw [hwire, cons_append] at hahead
  -- the connection stays, unless the answer raises
  have hlink' : ∀ l, (if w.loop.raises frame answer then none
      else some { link with wire := rest }) = some l → l = { link with wire := rest } := by
    intro l hl
    split at hl
    · cases hl
    · exact (some_inj.1 hl).symm
  have hloop := w.loop.handle_loop frame answer
  refine ⟨h.sane, ?_, ?_, ?_, ?_, ?_, ?_⟩
  · show 0 ≤ (w.loop.handle frame answer).1.generation
    rcases hloop with heq | heq
    · rw [heq]
      exact h.nonneg
    · rw [heq]
      exact hahead.nonneg frame (.head _)
  · intro reading hreading
    rcases mem_append.1 hreading with hreading | hreading
    · exact h.forwards reading hreading
    · rw [mem_singleton.1 hreading]
      exact hahead.publishes answer link.daemon
  · intro before skipped after heq hskipped
    -- the frame that is skipped is this one, or an earlier one
    rcases after.eq_nil_or_concat with rfl | ⟨after, last, rfl⟩
    · obtain ⟨rfl, hlast⟩ := append_inj' heq rfl
      obtain rfl := (cons.inj hlast).1
      obtain ⟨hkind, hskips⟩ := hahead.heartbeat_of_skipped hskipped
      exact Bool.eq_false_iff.2 fun hpending => hbeat hpending hkind hskips
    · rw [concat_eq_append, ← cons_append, ← append_assoc] at heq
      exact h.resyncs before skipped after (append_inj' heq rfl).1 hskipped
  · intro l hl
    obtain rfl := hlink' l hl
    exact h.daemon link hlink
  · intro l hl
    obtain rfl := hlink' l hl
    exact hahead.read answer
  · intro l hl hdaemon
    obtain rfl := hlink' l hl
    have hbound := h.bounded link hlink hdaemon
    obtain ⟨hseq, hgen⟩ := hbound.wire frame (hwire ▸ .head _)
    refine ⟨?_, ?_, hbound.ident, fun f hf => hbound.wire f (hwire ▸ .tail _ hf)⟩
    · show (w.loop.handle frame answer).1.cursor ≤ w.feed.hub.sequence
      rcases hloop with heq | heq
      · rw [heq]
        exact hbound.cursor
      · rw [heq]
        exact hseq
    · show (w.loop.handle frame answer).1.generation ≤ w.feed.hub.generation
      rcases hloop with heq | heq
      · rw [heq]
        exact hbound.generation
      · rw [heq]
        exact hgen

/-- **One orderly step keeps the invariant.** -/
theorem step_steady {event : Event P} (h : Steady w) (hstep : step w event = some w')
    (horderly : Orderly w event w') : Steady w' := by
  cases event with
  | call call =>
    rw [step] at hstep
    split at hstep
    · rename_i hforeign
      obtain ⟨feed, hfeed, rfl⟩ := map_eq_some_iff.1 hstep
      exact h.call hforeign hfeed
    · cases hstep
  | restart bounds =>
    cases hstep
    exact h.restart bounds
  | connect =>
    rw [step] at hstep
    split at hstep <;> cases hstep
    exact h.connect horderly
  | wait =>
    simp only [step, bind_eq_bind, bind_eq_some_iff] at hstep
    obtain ⟨link, hlink, client, hclient, hstep⟩ := hstep
    split at hstep <;> cases hstep
    have hbound := h.bounded link hlink
    exact h.relink hlink h.sane rfl (h.ahead link hlink) fun hdaemon =>
      ⟨(hbound hdaemon).cursor, (hbound hdaemon).generation, (hbound hdaemon).ident,
        (hbound hdaemon).wire⟩
  | send =>
    simp only [step, bind_eq_bind, bind_eq_some_iff] at hstep
    obtain ⟨link, hlink, client, hclient, item, hitem, feed, hfeed, hstep⟩ := hstep
    cases hstep
    obtain ⟨rest, hqueue⟩ := head?_eq_some_iff.1 hitem
    exact h.send hlink hclient hqueue hfeed
  | timeout =>
    simp only [step, bind_eq_bind, bind_eq_some_iff] at hstep
    obtain ⟨link, hlink, client, hclient, hstep⟩ := hstep
    split at hstep <;> cases hstep
    exact h.timeout hlink hclient (horderly link hlink client hclient)
  | read answer =>
    rw [step] at hstep
    split at hstep
    · cases hstep
    · rename_i link hlink
      split at hstep <;> cases hstep
      rename_i frame rest hwire
      refine h.read hlink hwire (horderly link hlink frame ?_)
      rw [hwire]
      rfl
  | drop =>
    rw [step] at hstep
    split at hstep <;> cases hstep
    exact ⟨h.sane, h.nonneg, h.forwards, h.resyncs,
      fun _ hlink => absurd hlink.symm (some_ne_none _),
      fun _ hlink => absurd hlink.symm (some_ne_none _),
      fun _ hlink => absurd hlink.symm (some_ne_none _)⟩

end Step

/-- **The watch loop recovers in every orderly run.**  The daemon may be restarted any number of
times, the connection may break at any time, and other clients do what they like. -/
theorem orderly_recovers {bounds : HubBounds} {events : List (Event P)} {w : World P}
    (hrun : run step { feed := .start bounds } events = some w)
    (horderly : Transition.Along step Orderly { feed := .start bounds } events) :
    Recovers w.readings :=
  (Transition.along_invariant (fun _ _ _ h hstep hcond => step_steady h hstep hcond)
    (start_steady bounds) horderly hrun).recovers

/-! ### Samples -/

/-- A daemon that publishes one status, and a loop that connects and reads it. -/
def firstStatus : List (Event ℕ) :=
  [.call (.publish "status" 1 0 true), .connect, .send, .read .failure]

/-- The daemon is restarted, the loop connects again, and the new daemon publishes a status. -/
def secondStatus : List (Event ℕ) :=
  [.restart bounds, .drop, .connect, .call (.publish "status" 2 0 true), .send, .read .failure]

/-- 33 events overflow the queue; the loop reads the marker, cannot obtain a status, and gets a
heartbeat. -/
def failedResync : List (Event ℕ) :=
  [.connect] ++ replicate 33 (.call (.publish "perf" 0 0 false)) ++
    [.send, .read .failure, .wait, .timeout, .read .failure]

/-- What the loop has read after `events`. -/
def readingsAfter (events : List (Event ℕ)) : Option (List (Reading ℕ)) :=
  (run step { feed := .start bounds } events).map (·.readings)

/-- A new daemon whose hub is past the old cursor when the loop connects again.  In a queue for one
event the second gives a marker, whose status call fails; then a status is published. -/
def recovery : List (Event ℕ) :=
  firstStatus ++ [.restart bounds, .drop] ++
    replicate 2 (.call (.publish "perf" 0 0 false)) ++
    [.connect, .call (.publish "perf" 0 0 false), .send, .read .failure,
      .call (.publish "status" 2 0 true), .send, .read .failure]

theorem orderly_recovers_restarted :
    ∃ w, run step { feed := .start {} } (recovery { queueSize := 1 }) = some w ∧
      w.readings = [⟨0, ⟨1, 0, "status", some 1, true⟩, .forwarded "status" (some 1)⟩,
        ⟨1, ⟨4, 0, "full_resync", none, true⟩, .resyncFailed⟩,
        ⟨1, ⟨5, 0, "status", some 2, true⟩, .forwarded "status" (some 2)⟩] ∧
      Recovers w.readings := by
  have hreadings : readingsAfter {} (recovery { queueSize := 1 }) =
      some [⟨0, ⟨1, 0, "status", some 1, true⟩, .forwarded "status" (some 1)⟩,
        ⟨1, ⟨4, 0, "full_resync", none, true⟩, .resyncFailed⟩,
        ⟨1, ⟨5, 0, "status", some 2, true⟩, .forwarded "status" (some 2)⟩] := by
    decide +kernel
  obtain ⟨w, hrun, hw⟩ := map_eq_some_iff.1 hreadings
  exact ⟨w, hrun, hw, orderly_recovers hrun (by decide +kernel)⟩

/-- **A restart hides a status, and a failed resynchronisation is forgotten.**  The first status of
the new daemon has a number the loop has already seen; and after a marker whose status call failed
the next frame, a heartbeat, is skipped with nothing published. -/
theorem restart_hides_status :
    readingsAfter {} (firstStatus ++ secondStatus {}) =
      some [⟨0, ⟨1, 0, "status", some 1, true⟩, .forwarded "status" (some 1)⟩,
        ⟨1, ⟨1, 0, "status", some 2, true⟩, .skipped⟩] ∧
    readingsAfter {} failedResync =
      some [⟨0, ⟨34, 0, "full_resync", none, true⟩, .resyncFailed⟩,
        ⟨0, ⟨34, 0, "heartbeat", none, false⟩, .skipped⟩] ∧
    (∀ readings, readingsAfter {} (firstStatus ++ secondStatus {}) = some readings →
      ¬ Recovers readings) ∧
    ∀ readings, readingsAfter {} failedResync = some readings → ¬ Recovers readings := by
  have hfirst : readingsAfter {} (firstStatus ++ secondStatus {}) =
      some [⟨0, ⟨1, 0, "status", some 1, true⟩, .forwarded "status" (some 1)⟩,
        ⟨1, ⟨1, 0, "status", some 2, true⟩, .skipped⟩] := by
    decide +kernel
  have hsecond : readingsAfter {} failedResync =
      some [⟨0, ⟨34, 0, "full_resync", none, true⟩, .resyncFailed⟩,
        ⟨0, ⟨34, 0, "heartbeat", none, false⟩, .skipped⟩] := by
    decide +kernel
  refine ⟨hfirst, hsecond, fun readings hreadings hrecovers => ?_,
    fun readings hreadings hrecovers => ?_⟩
  · obtain rfl := some_inj.1 (hfirst.symm.trans hreadings)
    rcases hrecovers.status [_] _ [] rfl (.inl rfl) with (⟨_, h⟩ | ⟨_, h⟩) | ⟨later, hlater, -⟩
    · cases h
    · cases h
    · cases hlater
  · obtain rfl := some_inj.1 (hsecond.symm.trans hreadings)
    obtain ⟨reading, hreading, -⟩ := hrecovers.resync [] _ [] _ [] rfl rfl rfl
    cases hreading

end Horizon.Web
