/-
**Watch feeds: the calls on a hub and what they leave behind.**

The calls on a hub are taken here in any order.  The state remembers, besides the hub, every event
that was published, every item that was ever queued, and what each client has taken from its queue.
A client that comes with a cursor is sent a backlog, and from then on every event that is
published, or, when its queue is full, one marker in place of the queue.

Main results:

* `WatchHub.deliver_handed` — **each client that stays has the event at the end of its
  queue, or a marker with a later number instead of the queue**.
-/

import Horizon.Transition
import Horizon.WatchHub

namespace Horizon

open List
open Option (some_inj)
open Function

variable {P : Type} {ident : ℕ} (bounds : HubBounds) (sequence : ℕ)

/-! ### A hub and its calls -/

/-- A hub with its past: the events that were published, everything that was ever queued, and what
each client has taken. -/
structure WatchFeed (P : Type) where
  hub : WatchHub P
  published : List (WatchEvent P) := []
  issued : List (WatchEvent P) := []
  taken : ℕ → List (WatchEvent P) := fun _ => []

/-- The calls on a hub.  `walk` fixes the order in which the set of clients is walked next. -/
inductive WatchCall (P : Type)
  | publish (kind : String) (payload : P) (generation : ℤ) (full : Bool)
  | subscribe (cursor : WatchCursor)
  | unsubscribe (ident : ℕ)
  | take (ident : ℕ)
  | walk (order : List ℕ)

def WatchHub.queued (hub : WatchHub P) : List (WatchEvent P) :=
  hub.clients.flatMap fun ident => (hub.clientMap ident).elim [] (·.queue)

/-- The item that `take` finds in a queue. -/
def WatchHub.next (hub : WatchHub P) (ident : ℕ) : List (WatchEvent P) :=
  ((hub.clientMap ident).bind fun client => client.queue.head?).toList

/-- The feed after a call that leaves `hub` and has published `events`. -/
def WatchFeed.moved (feed : WatchFeed P) (hub : WatchHub P) (events : List (WatchEvent P)) :
    WatchFeed P :=
  { feed with hub := hub
              published := feed.published ++ events
              issued := feed.issued ++ (events ++ hub.queued) }

def feedStep (feed : WatchFeed P) : WatchCall P → Option (WatchFeed P)
  | .publish kind payload generation full =>
    let out := feed.hub.publish kind payload generation full
    some (feed.moved out.2 out.1.toOption.toList)
  | .subscribe cursor => some (feed.moved (feed.hub.subscribe cursor).2 [])
  | .unsubscribe ident => some (feed.moved (feed.hub.unsubscribe ident) [])
  | .take ident =>
    some { feed.moved (feed.hub.take ident).2 [] with
            taken := update feed.taken ident (feed.taken ident ++ feed.hub.next ident) }
  | .walk order =>
    if order.Perm feed.hub.clients then
      some (feed.moved { feed.hub with clients := order } [])
    else none

def WatchFeed.start : WatchFeed P := { hub := .new bounds }

namespace WatchHub

/-! ### The loop of `publish` over the clients -/

/-- A client that is found after an update is the new one or was there before. -/
theorem client_of_update {clients : ℕ → Option (WatchClient P)} {ident j : ℕ}
    {entry : Option (WatchClient P)} {client : WatchClient P}
    (h : update clients ident entry j = some client) :
    (j = ident ∧ entry = some client) ∨ (j ≠ ident ∧ clients j = some client) := by
  by_cases heq : j = ident
  · subst heq
    rw [update_self] at h
    exact .inl ⟨rfl, h⟩
  · rw [update_of_ne heq] at h
    exact .inr ⟨heq, h⟩

/-- Every client in the map is connected and in the set that `publish` walks. -/
def Live (hub : WatchHub P) : Prop :=
  ∀ ident client, hub.clientMap ident = some client →
    ident ∈ hub.clients ∧ client.disconnected = false

/-- What delivering `item` to the clients `idents` does. -/
structure Handed (item : WatchEvent P) (idents : List ℕ) (hub hub' : WatchHub P) : Prop where
  bounds : hub'.bounds = hub.bounds
  history : hub'.history = hub.history
  snapshot : hub'.snapshot = hub.snapshot
  generation : hub'.generation = hub.generation
  nextClient : hub'.nextClient = hub.nextClient
  sequence : hub.sequence ≤ hub'.sequence
  clients : hub'.clients.Sublist hub.clients
  live : Live hub'
  others : ∀ ident, ident ∉ idents → hub'.clientMap ident = hub.clientMap ident
  own : ∀ ident ∈ idents, ∀ client', hub'.clientMap ident = some client' →
    ∃ client, hub.clientMap ident = some client ∧
      (client'.queue = client.queue ++ [item] ∨
        ∃ number, hub.sequence < number ∧ number ≤ hub'.sequence ∧
          client'.queue = [resyncMarker number item.generation])

theorem enqueue_cases (client : WatchClient P) (item : WatchEvent P)
    (hconn : client.disconnected = false) :
    (client.queue.length < bounds.queueSize ∧
      (enqueue bounds sequence client item).1 = sequence ∧
      (enqueue bounds sequence client item).2.disconnected = false ∧
      (enqueue bounds sequence client item).2.queue = client.queue ++ [item]) ∨
    (bounds.queueSize ≤ client.queue.length ∧
      (enqueue bounds sequence client item).1 = sequence + 1 ∧
      (enqueue bounds sequence client item).2.queue =
        [resyncMarker (sequence + 1) item.generation]) := by
  unfold enqueue
  simp only [hconn, Bool.false_eq_true, if_false]
  split_ifs with h
  · exact .inl ⟨h, rfl, rfl, rfl⟩
  · exact .inr ⟨not_lt.1 h, rfl, rfl⟩

theorem enqueue_sequence_le (client : WatchClient P) (item : WatchEvent P) :
    sequence ≤ (enqueue bounds sequence client item).1 := by
  unfold enqueue
  split
  · exact le_rfl
  · split
    · exact le_rfl
    · exact Nat.le_succ _

theorem Live.remove {hub : WatchHub P} (hlive : Live hub) (hnodup : hub.clients.Nodup)
    (ident : ℕ) {ident' : ℕ} {client : WatchClient P}
    (h : update hub.clientMap ident none ident' = some client) :
    ident' ∈ hub.clients.erase ident ∧ client.disconnected = false := by
  obtain ⟨-, hnone⟩ | ⟨hne, hold⟩ := client_of_update h
  · cases hnone
  · exact ⟨hnodup.mem_erase_iff.2 ⟨hne, (hlive _ _ hold).1⟩, (hlive _ _ hold).2⟩

theorem deliverTo_handed (item : WatchEvent P) (hub : WatchHub P) (ident : ℕ)
    (hnodup : hub.clients.Nodup) (hlive : Live hub) :
    Handed item [ident] hub (deliverTo item hub ident) := by
  have elsewhere : ∀ (j : ℕ) (entry : Option (WatchClient P)), j ∉ [ident] →
      update hub.clientMap ident entry j = hub.clientMap j :=
    fun j entry hj => update_of_ne (fun h => hj (mem_singleton.2 h)) _ _
  unfold deliverTo
  split
  · rename_i hnone
    refine ⟨rfl, rfl, rfl, rfl, rfl, le_rfl, erase_sublist, ?_, fun _ _ => rfl, ?_⟩
    · intro j client hj
      refine hlive.remove hnodup ident ?_
      rwa [← hnone, Function.update_eq_self]
    · intro j hj client' hclient'
      rw [mem_singleton.1 hj, hnone] at hclient'
      cases hclient'
  · rename_i client hclient
    have hconn := (hlive ident client hclient).2
    rw [hconn, if_neg Bool.false_ne_true]
    have hseq := enqueue_sequence_le hub.bounds hub.sequence client item
    dsimp only
    split_ifs with hstays
    · refine ⟨rfl, rfl, rfl, rfl, rfl, hseq, erase_sublist,
        fun j c hj => hlive.remove hnodup ident hj, fun j hj => elsewhere j _ hj, ?_⟩
      intro j hj client' hclient'
      obtain ⟨-, hnone⟩ | ⟨hne, -⟩ := client_of_update hclient'
      · cases hnone
      · exact absurd (mem_singleton.1 hj) hne
    · refine ⟨rfl, rfl, rfl, rfl, rfl, hseq, List.Sublist.refl _, ?_,
        fun j hj => elsewhere j _ hj, ?_⟩
      · intro j c hj
        obtain ⟨rfl, hc⟩ | ⟨-, hold⟩ := client_of_update hj
        · exact ⟨(hlive j client hclient).1, some_inj.1 hc ▸ Bool.eq_false_iff.2 hstays⟩
        · exact hlive j c hold
      · intro j hj client' hclient'
        obtain rfl := mem_singleton.1 hj
        obtain ⟨-, hc⟩ | ⟨hne, -⟩ := client_of_update hclient'
        swap
        · exact absurd rfl hne
        refine ⟨client, hclient, ?_⟩
        rw [← some_inj.1 hc]
        obtain ⟨-, -, -, hqueue⟩ | ⟨-, hnumber, hqueue⟩ :=
          enqueue_cases hub.bounds hub.sequence client item hconn
        · exact .inl hqueue
        · exact .inr ⟨hub.sequence + 1, Nat.lt_succ_self _, hnumber.ge, hqueue⟩

variable {item : WatchEvent P}

theorem Handed.cons {idents : List ℕ} {hub mid hub' : WatchHub P}
    (hfirst : Handed item [ident] hub mid) (hrest : Handed item idents mid hub')
    (hnot : ident ∉ idents) :
    Handed item (ident :: idents) hub hub' where
  bounds := hrest.bounds.trans hfirst.bounds
  history := hrest.history.trans hfirst.history
  snapshot := hrest.snapshot.trans hfirst.snapshot
  generation := hrest.generation.trans hfirst.generation
  nextClient := hrest.nextClient.trans hfirst.nextClient
  sequence := hfirst.sequence.trans hrest.sequence
  clients := hrest.clients.trans hfirst.clients
  live := hrest.live
  others := by
    intro j hj
    rw [mem_cons, not_or] at hj
    rw [hrest.others j hj.2, hfirst.others j fun h => hj.1 (mem_singleton.1 h)]
  own := by
    intro j hj client' hclient'
    by_cases heq : j = ident
    · subst heq
      rw [hrest.others j hnot] at hclient'
      obtain ⟨client, hclient, hqueue⟩ := hfirst.own j (mem_singleton.2 rfl) client' hclient'
      refine ⟨client, hclient, hqueue.imp_right ?_⟩
      rintro ⟨number, hlow, hhigh, hqueue⟩
      exact ⟨number, hlow, hhigh.trans hrest.sequence, hqueue⟩
    · have hin : j ∈ idents := (mem_cons.1 hj).resolve_left heq
      obtain ⟨client, hclient, hqueue⟩ := hrest.own j hin client' hclient'
      rw [hfirst.others j fun h => heq (mem_singleton.1 h)] at hclient
      refine ⟨client, hclient, hqueue.imp_right ?_⟩
      rintro ⟨number, hlow, hhigh, hqueue⟩
      exact ⟨number, hfirst.sequence.trans_lt hlow, hhigh, hqueue⟩

theorem foldl_deliverTo_handed (item : WatchEvent P) (idents : List ℕ) (hub : WatchHub P)
    (hidents : idents.Nodup) (hnodup : hub.clients.Nodup) (hlive : Live hub) :
    Handed item idents hub (idents.foldl (deliverTo item) hub) := by
  induction idents generalizing hub with
  | nil =>
    exact ⟨rfl, rfl, rfl, rfl, rfl, le_rfl, List.Sublist.refl _, hlive, fun _ _ => rfl, nofun⟩
  | cons ident idents ih =>
    have hfirst := deliverTo_handed item hub ident hnodup hlive
    have hrest := ih (deliverTo item hub ident) hidents.of_cons
      (hnodup.sublist hfirst.clients) hfirst.live
    exact hfirst.cons hrest (nodup_cons.1 hidents).1

/-- **What publishing does to the clients**: each one that stays has the event at the end of its
queue, or a marker with a later number in place of the queue. -/
theorem deliver_handed (hub : WatchHub P) (item : WatchEvent P) (hnodup : hub.clients.Nodup)
    (hlive : Live hub) : Handed item hub.clients hub (hub.deliver item) :=
  foldl_deliverTo_handed item hub.clients hub hnodup hnodup hlive

/-! ### What `subscribe` queues -/

def replay (hub : WatchHub P) (cursor : WatchCursor) : List (WatchEvent P) :=
  hub.history.filter fun item => cursor.sequence < item.sequence

/-- The replay with the snapshot in place of the events before it. -/
def superseded (hub : WatchHub P) (cursor : WatchCursor) : List (WatchEvent P) :=
  match hub.snapshot with
  | some s =>
    if cursor.sequence < s.sequence then
      s :: (hub.replay cursor).filter fun item => s.sequence < item.sequence
    else hub.replay cursor
  | none => hub.replay cursor

/-- What `_enqueue_resync` queues. -/
def resync (hub : WatchHub P) : List (WatchEvent P) :=
  match hub.snapshot with
  | some s => [s]
  | none => [resyncMarker (hub.sequence + 1) hub.generation]

/-- What `subscribe` queues. -/
def backlog (hub : WatchHub P) (cursor : WatchCursor) : List (WatchEvent P) :=
  match hub.replay cursor with
  | [] =>
    if hub.generation < cursor.generation then hub.resync
    else (hub.snapshot.filter fun s => (cursor.generation : ℤ) < s.generation).toList
  | first :: _ =>
    if cursor.sequence + 1 < first.sequence ∨ hub.generation < cursor.generation then hub.resync
    else (hub.superseded cursor).drop ((hub.superseded cursor).length - hub.bounds.queueSize)

theorem enqueueAll_eq (items : List (WatchEvent P)) (sequence : ℕ) (client : WatchClient P)
    (hconn : client.disconnected = false)
    (hroom : client.queue.length + items.length ≤ bounds.queueSize) :
    (enqueueAll bounds (sequence, client) items).1 = sequence ∧
      (enqueueAll bounds (sequence, client) items).2.queue = client.queue ++ items ∧
      (enqueueAll bounds (sequence, client) items).2.disconnected = false := by
  induction items generalizing client with
  | nil => exact ⟨rfl, (append_nil _).symm, hconn⟩
  | cons item items ih =>
    rw [length_cons] at hroom
    obtain ⟨-, hnumber, hconn', hqueue⟩ | ⟨hfull, -⟩ :=
      enqueue_cases bounds sequence client item hconn
    · have hlen : (enqueue bounds sequence client item).2.queue.length + items.length ≤
          bounds.queueSize := by
        rw [hqueue, length_append, length_singleton]
        omega
      have h := ih _ hconn' hlen
      rw [hqueue, append_assoc, singleton_append] at h
      have hstart : enqueueAll bounds (sequence, client) (item :: items) =
          enqueueAll bounds (sequence, (enqueue bounds sequence client item).2) items :=
        congrArg (enqueueAll bounds · items) (Prod.ext hnumber rfl)
      rw [hstart]
      exact h
    · omega

theorem enqueue_first (client : WatchClient P) (item : WatchEvent P)
    (hconn : client.disconnected = false) (hempty : client.queue = []) :
    (enqueue bounds sequence client item).1 = sequence ∧
      (enqueue bounds sequence client item).2.queue = [item] ∧
      (enqueue bounds sequence client item).2.disconnected = false := by
  have h := enqueueAll_eq bounds [item] sequence client hconn (by
    rw [hempty]
    exact bounds.queueSize_pos)
  rw [hempty] at h
  exact h

/-- Where an item that `subscribe` queues comes from; `sequence` is the hub's number afterwards. -/
def Backed (hub : WatchHub P) (sequence : ℕ) (item : WatchEvent P) : Prop :=
  item ∈ hub.history ∨ hub.snapshot = some item ∨
    (sequence = hub.sequence + 1 ∧ item = resyncMarker sequence hub.generation)

/-- What `subscribe` makes of a new client. -/
structure Caught (hub : WatchHub P) (items : List (WatchEvent P)) (out : ℕ × WatchClient P) :
    Prop where
  queue : out.2.queue = items
  connected : out.2.disconnected = false
  sequence : hub.sequence ≤ out.1
  backed : ∀ item ∈ items, hub.Backed out.1 item

section CatchUp

variable (hub : WatchHub P) (cursor : WatchCursor) (client : WatchClient P)
  (hconn : client.disconnected = false) (hempty : client.queue = [])

include hconn hempty

theorem caught_nothing : Caught hub [] (hub.sequence, client) := ⟨hempty, hconn, le_rfl, nofun⟩

theorem caught_snapshot {s : WatchEvent P} (hs : hub.snapshot = some s) :
    Caught hub [s] (enqueue hub.bounds hub.sequence client s) := by
  obtain ⟨hnumber, hqueue, hconn'⟩ := enqueue_first hub.bounds hub.sequence client s hconn hempty
  refine ⟨hqueue, hconn', hnumber.ge, fun item hitem => .inr (.inl ?_)⟩
  rw [hs, mem_singleton.1 hitem]

theorem caught_resync : Caught hub hub.resync (hub.enqueueResync client) := by
  unfold resync enqueueResync
  cases hs : hub.snapshot with
  | some s => exact caught_snapshot hub client hconn hempty hs
  | none =>
    obtain ⟨hnumber, hqueue, hconn'⟩ := enqueue_first hub.bounds (hub.sequence + 1) client
      (resyncMarker (hub.sequence + 1) hub.generation) hconn hempty
    refine ⟨hqueue, hconn', (Nat.le_succ _).trans hnumber.ge, fun item hitem => ?_⟩
    refine .inr (.inr ⟨hnumber, ?_⟩)
    rw [hnumber, mem_singleton.1 hitem]

theorem caught_replay (items : List (WatchEvent P)) (hfits : items.length ≤ hub.bounds.queueSize)
    (hitems : ∀ item ∈ items, item ∈ hub.history ∨ hub.snapshot = some item) :
    Caught hub items (enqueueAll hub.bounds (hub.sequence, client) items) := by
  obtain ⟨hnumber, hqueue, hconn'⟩ := enqueueAll_eq hub.bounds items hub.sequence client hconn (by
    rw [hempty]
    exact (zero_add _).trans_le hfits)
  rw [hempty] at hqueue
  exact ⟨hqueue, hconn', hnumber.ge, fun item hitem => (hitems item hitem).imp_right .inl⟩

omit hconn hempty in
theorem mem_superseded (h : item ∈ hub.superseded cursor) :
    item ∈ hub.history ∨ hub.snapshot = some item := by
  unfold superseded at h
  split at h
  · rename_i s hs
    split at h
    · rcases mem_cons.1 h with rfl | h
      · exact .inr hs
      · exact .inl (mem_of_mem_filter (mem_of_mem_filter h))
    · exact .inl (mem_of_mem_filter h)
  · exact .inl (mem_of_mem_filter h)

/-- **What `subscribe` queues is the backlog.** -/
theorem catchUp_caught : Caught hub (hub.backlog cursor) (hub.catchUp cursor client) := by
  unfold backlog catchUp
  split
  · rename_i hreplay
    rw [replay] at hreplay
    rw [hreplay]
    split
    · exact caught_resync hub client hconn hempty
    · cases hs : hub.snapshot with
      | none => exact caught_nothing hub client hconn hempty
      | some s =>
        dsimp only
        split_ifs with hlt
        · rw [Option.filter_some, if_pos (decide_eq_true hlt)]
          exact caught_snapshot hub client hconn hempty hs
        · rw [Option.filter_some, if_neg (by simpa using hlt)]
          exact caught_nothing hub client hconn hempty
  · rename_i first rest hreplay
    have hall : hub.history.filter (fun item => cursor.sequence < item.sequence) =
        first :: rest := hreplay
    rw [hall]
    dsimp only
    by_cases hgap : cursor.sequence + 1 < first.sequence
    · rw [if_pos hgap, if_pos (.inl hgap)]
      exact caught_resync hub client hconn hempty
    · rw [if_neg hgap]
      by_cases hgen : hub.generation < cursor.generation
      · rw [if_pos hgen, if_pos (.inr hgen)]
        exact caught_resync hub client hconn hempty
      · rw [if_neg hgen, if_neg (not_or.2 ⟨hgap, hgen⟩)]
        have h := caught_replay hub client hconn hempty
          ((hub.superseded cursor).drop ((hub.superseded cursor).length - hub.bounds.queueSize))
          (by rw [length_drop]; omega)
          fun item hitem => mem_superseded hub cursor (mem_of_mem_drop hitem)
        unfold superseded at h ⊢
        rw [hreplay] at h ⊢
        exact h

end CatchUp

/-! ### What `publish` does -/

/-- The hub that has numbered and remembered an event, before the loop over the clients. -/
def noted (hub : WatchHub P) (item : WatchEvent P) : WatchHub P :=
  { hub.advance item.generation with
    history := remember hub.bounds hub.history item
    snapshot := if item.full then some item else hub.snapshot }

/-- A refused event changes at most the number and the generation; an accepted one is noted and
delivered. -/
theorem publish_cases (hub : WatchHub P) (kind : String) (payload : P) (generation : ℤ)
    (full : Bool) :
    ((hub.publish kind payload generation full).1.toOption = none ∧
      ((hub.publish kind payload generation full).2 = hub ∨
        hub.generation ≤ generation ∧
          (hub.publish kind payload generation full).2 = hub.advance generation)) ∨
    (hub.generation ≤ generation ∧
      hub.publish kind payload generation full =
        (.ok (hub.event kind payload generation full),
          (hub.noted (hub.event kind payload generation full)).deliver
            (hub.event kind payload generation full))) := by
  unfold publish
  split
  · exact .inl ⟨rfl, .inl rfl⟩
  · rename_i hstale
    have hle : hub.generation ≤ generation := not_lt.1 hstale
    split
    · exact .inl ⟨rfl, .inr ⟨hle, rfl⟩⟩
    · split
      · exact .inl ⟨rfl, .inr ⟨hle, rfl⟩⟩
      · exact .inr ⟨hle, rfl⟩

/-! ### The history -/

/-- What a hub remembers of the events that were published. -/
structure Logged (hub : WatchHub P) (published : List (WatchEvent P)) : Prop where
  ascending : published.Pairwise (·.sequence < ·.sequence)
  recent : hub.history <:+ published
  remembered : published ≠ [] → hub.history ≠ []
  snapshot_some : ∀ s, hub.snapshot = some s →
    s ∈ published ∧ s.full = true ∧ ∀ event ∈ published, event.full = true →
      event.sequence ≤ s.sequence
  snapshot_none : hub.snapshot = none → ∀ event ∈ published, event.full = false

variable {published : List (WatchEvent P)}

theorem remember_suffix {history : List (WatchEvent P)} (item : WatchEvent P)
    (h : history <:+ published) : remember bounds history item <:+ published ++ [item] := by
  refine (drop_suffix _ _).trans ?_
  obtain ⟨before, rfl⟩ := h
  exact ⟨before, (append_assoc _ _ _).symm⟩

theorem remember_ne_nil (history : List (WatchEvent P)) (item : WatchEvent P) :
    remember bounds history item ≠ [] := by
  have hpos := bounds.historySize_pos
  intro h
  have hlen := congrArg length h
  rw [remember, length_drop, length_append, length_singleton,
    length_nil] at hlen
  omega

theorem Logged.noted {hub : WatchHub P} (h : Logged hub published)
    (hnew : ∀ event ∈ published, event.sequence < item.sequence) :
    Logged (hub.noted item) (published ++ [item]) where
  ascending := by
    rw [pairwise_append]
    refine ⟨h.ascending, pairwise_singleton _ _, fun event hevent item' hitem' => ?_⟩
    rw [mem_singleton.1 hitem']
    exact hnew event hevent
  recent := remember_suffix hub.bounds item h.recent
  remembered := fun _ => remember_ne_nil hub.bounds hub.history item
  snapshot_some := by
    intro s hs
    rw [WatchHub.noted] at hs
    split_ifs at hs with hfull
    · cases hs
      refine ⟨mem_append_right _ (mem_singleton.2 rfl), hfull, fun event hevent _ => ?_⟩
      rcases mem_append.1 hevent with hold | hitem
      · exact (hnew event hold).le
      · rw [mem_singleton.1 hitem]
    · obtain ⟨hmem, hs, hlast⟩ := h.snapshot_some s hs
      refine ⟨mem_append_left _ hmem, hs, fun event hevent hef => ?_⟩
      rcases mem_append.1 hevent with hold | hitem
      · exact hlast event hold hef
      · rw [mem_singleton.1 hitem] at hef
        exact absurd hef hfull
  snapshot_none := by
    intro hs event hevent
    rw [WatchHub.noted] at hs
    split at hs
    · cases hs
    · rename_i hfull
      rcases mem_append.1 hevent with hold | hitem
      · exact h.snapshot_none hs event hold
      · rw [mem_singleton.1 hitem]
        exact Bool.eq_false_iff.2 hfull

/-- Calls that keep the history and the snapshot keep the record. -/
theorem Logged.congr {hub hub' : WatchHub P} (h : Logged hub published)
    (hhistory : hub'.history = hub.history) (hsnapshot : hub'.snapshot = hub.snapshot) :
    Logged hub' published where
  ascending := h.ascending
  recent := hhistory ▸ h.recent
  remembered := hhistory ▸ h.remembered
  snapshot_some := hsnapshot ▸ h.snapshot_some
  snapshot_none := hsnapshot ▸ h.snapshot_none

/-- An issued item is numbered at most the hub's number, and no published event up to it has a
later generation. -/
structure Proper (hub : WatchHub P) (published : List (WatchEvent P)) (item : WatchEvent P) :
    Prop where
  sequence : item.sequence ≤ hub.sequence
  nonneg : 0 ≤ item.generation
  generation : item.generation ≤ hub.generation
  latest : ∀ event ∈ published, event.sequence ≤ item.sequence → event.generation ≤ item.generation

theorem Proper.mono {hub hub' : WatchHub P} (h : Proper hub published item)
    (hsequence : hub.sequence ≤ hub'.sequence) (hgeneration : hub.generation ≤ hub'.generation) :
    Proper hub' published item :=
  ⟨h.sequence.trans hsequence, h.nonneg, h.generation.trans hgeneration, h.latest⟩

end WatchHub

/-! ### The invariant of a feed -/

open WatchHub in
/-- The invariant of the feeds that calls lead to. -/
structure WatchFeed.Sane (feed : WatchFeed P) : Prop where
  logged : Logged feed.hub feed.published
  live : Live feed.hub
  distinct : feed.hub.clients.Nodup
  numbered : ∀ ident ∈ feed.hub.clients, ident ≤ feed.hub.nextClient
  nonneg : 0 ≤ feed.hub.generation
  proper : ∀ item ∈ feed.issued, Proper feed.hub feed.published item
  published_issued : ∀ event ∈ feed.published, event ∈ feed.issued
  queued_issued : ∀ ident client, feed.hub.clientMap ident = some client →
    ∀ item ∈ client.queue, item ∈ feed.issued
  taken_issued : ∀ ident, ∀ item ∈ feed.taken ident, item ∈ feed.issued
  untaken : ∀ ident, feed.hub.nextClient < ident → feed.taken ident = []

namespace WatchFeed

open WatchHub

theorem start_sane : (start bounds : WatchFeed P).Sane where
  logged :=
    { ascending := List.Pairwise.nil
      recent := suffix_refl _
      remembered := fun h => absurd rfl h
      snapshot_some := nofun
      snapshot_none := nofun }
  live := nofun
  distinct := nodup_nil
  numbered := nofun
  nonneg := le_rfl
  proper := nofun
  published_issued := nofun
  queued_issued := nofun
  taken_issued := nofun
  untaken := fun _ _ => rfl

variable {hub : WatchHub P}

/-- A call keeps the invariant when all that was issued and all that is queued stay proper. -/
theorem Sane.moved {feed : WatchFeed P} (h : feed.Sane) {events : List (WatchEvent P)}
    (hlogged : Logged hub (feed.published ++ events)) (hlive : Live hub)
    (hdistinct : hub.clients.Nodup) (hnumbered : ∀ ident ∈ hub.clients, ident ≤ hub.nextClient)
    (hnext : feed.hub.nextClient ≤ hub.nextClient) (hnonneg : 0 ≤ hub.generation)
    (hold : ∀ item ∈ feed.issued, Proper hub (feed.published ++ events) item)
    (hevents : ∀ item ∈ events, Proper hub (feed.published ++ events) item)
    (hqueues : ∀ ident client, hub.clientMap ident = some client →
      ∀ item ∈ client.queue, Proper hub (feed.published ++ events) item) :
    (feed.moved hub events).Sane where
  logged := hlogged
  live := hlive
  distinct := hdistinct
  numbered := hnumbered
  nonneg := hnonneg
  proper := by
    intro item hitem
    rcases mem_append.1 hitem with hitem | hitem
    · exact hold item hitem
    rcases mem_append.1 hitem with hitem | hitem
    · exact hevents item hitem
    · obtain ⟨ident, -, hitem⟩ := mem_flatMap.1 hitem
      cases hclient : hub.clientMap ident with
      | none =>
        rw [hclient] at hitem
        cases hitem
      | some client =>
        rw [hclient] at hitem
        exact hqueues ident client hclient item hitem
  published_issued := by
    intro event hevent
    rcases mem_append.1 hevent with hevent | hevent
    · exact mem_append_left _ (h.published_issued event hevent)
    · exact mem_append_right _ (mem_append_left _ hevent)
  queued_issued := by
    intro ident client hclient item hitem
    refine mem_append_right _ (mem_append_right _ ?_)
    refine mem_flatMap.2 ⟨ident, (hlive ident client hclient).1, ?_⟩
    have hclient' : hub.clientMap ident = some client := hclient
    rw [hclient']
    exact hitem
  taken_issued := fun ident item hitem => mem_append_left _ (h.taken_issued ident item hitem)
  untaken := fun ident hident => h.untaken ident (hnext.trans_lt hident)

theorem Sane.quiet {feed : WatchFeed P} (h : feed.Sane)
    (hhistory : hub.history = feed.hub.history) (hsnapshot : hub.snapshot = feed.hub.snapshot)
    (hsequence : feed.hub.sequence ≤ hub.sequence)
    (hgeneration : feed.hub.generation ≤ hub.generation) (hlive : Live hub)
    (hdistinct : hub.clients.Nodup) (hnumbered : ∀ ident ∈ hub.clients, ident ≤ hub.nextClient)
    (hnext : feed.hub.nextClient ≤ hub.nextClient)
    (hqueues : ∀ ident client, hub.clientMap ident = some client →
      ∀ item ∈ client.queue, item ∈ feed.issued ∨ Proper hub feed.published item) :
    (feed.moved hub []).Sane := by
  have hold : ∀ item ∈ feed.issued, Proper hub (feed.published ++ []) item := by
    intro item hitem
    rw [append_nil]
    exact (h.proper item hitem).mono hsequence hgeneration
  refine h.moved ?_ hlive hdistinct hnumbered hnext (h.nonneg.trans hgeneration) hold
    nofun fun ident client hclient item hitem => ?_
  · rw [append_nil]
    exact h.logged.congr hhistory hsnapshot
  · rcases hqueues ident client hclient item hitem with hissued | hproper
    · exact hold item hissued
    · rwa [append_nil]

theorem take_cases (hub : WatchHub P) (ident : ℕ) :
    ((hub.take ident).2 = hub ∧ hub.next ident = []) ∨
    ∃ client item rest, hub.clientMap ident = some client ∧ client.queue = item :: rest ∧
      hub.next ident = [item] ∧
      (hub.take ident).2 = { hub with clientMap := update hub.clientMap ident
                                                    (some { client with queue := rest }) } := by
  unfold WatchHub.take WatchHub.next
  cases hclient : hub.clientMap ident with
  | none => exact .inl ⟨rfl, rfl⟩
  | some client =>
    cases hqueue : client.queue with
    | nil => exact .inl ⟨by simp [hqueue], by simp [hqueue]⟩
    | cons item rest =>
      exact .inr ⟨client, item, rest, rfl, hqueue, by simp [hqueue], by simp [hqueue]⟩

variable {feed : WatchFeed P} {event item : WatchEvent P} (h : feed.Sane)
include h

/-- Only the numbers of the hub have grown. -/
theorem Sane.count {sequence : ℕ} {generation : ℤ} (hsequence : feed.hub.sequence ≤ sequence)
    (hgeneration : feed.hub.generation ≤ generation) :
    (feed.moved { feed.hub with sequence := sequence, generation := generation } []).Sane :=
  h.quiet rfl rfl hsequence hgeneration h.live h.distinct h.numbered le_rfl
    fun j c hj x hx => .inl (h.queued_issued j c hj x hx)

theorem Sane.event_generation (hevent : event ∈ feed.published) :
    event.generation ≤ feed.hub.generation :=
  (h.proper event (h.published_issued event hevent)).generation

theorem Sane.event_sequence (hevent : event ∈ feed.published) :
    event.sequence ≤ feed.hub.sequence :=
  (h.proper event (h.published_issued event hevent)).sequence

theorem Sane.proper_old {old : WatchEvent P} (hold : old ∈ feed.issued)
    (hnew : feed.hub.sequence < item.sequence) (hsequence : item.sequence ≤ hub.sequence)
    (hgeneration : feed.hub.generation ≤ hub.generation) :
    Proper hub (feed.published ++ [item]) old := by
  have hproper := h.proper old hold
  refine ⟨hproper.sequence.trans (hnew.le.trans hsequence), hproper.nonneg,
    hproper.generation.trans hgeneration, fun event hevent hle => ?_⟩
  rcases mem_append.1 hevent with hevent | hevent
  · exact hproper.latest event hevent hle
  · rw [mem_singleton.1 hevent] at hle
    exact absurd (hnew.trans_le (hle.trans hproper.sequence)) (lt_irrefl _)

/-- An event, and the markers that are sent in its place, are proper. -/
theorem Sane.proper_new {new : WatchEvent P} (hsequence : new.sequence ≤ hub.sequence)
    (heq : new.generation = item.generation) (hgeneration : hub.generation = item.generation)
    (hle : feed.hub.generation ≤ item.generation) : Proper hub (feed.published ++ [item]) new := by
  refine ⟨hsequence, heq ▸ h.nonneg.trans hle, (heq.trans hgeneration.symm).le,
    fun event hevent _ => ?_⟩
  rw [heq]
  rcases mem_append.1 hevent with hevent | hevent
  · exact (h.event_generation hevent).trans hle
  · rw [mem_singleton.1 hevent]

theorem Sane.deliver (hnumber : item.sequence = feed.hub.sequence + 1)
    (hgeneration : feed.hub.generation ≤ item.generation) :
    (feed.moved ((feed.hub.noted item).deliver item) [item]).Sane := by
  have hhanded := deliver_handed (feed.hub.noted item) item h.distinct h.live
  have hnew : feed.hub.sequence < item.sequence := hnumber ▸ Nat.lt_succ_self _
  have hseq : item.sequence ≤ ((feed.hub.noted item).deliver item).sequence :=
    hnumber.le.trans hhanded.sequence
  have hgen : ((feed.hub.noted item).deliver item).generation = item.generation :=
    hhanded.generation
  have hold : ∀ old ∈ feed.issued,
      Proper ((feed.hub.noted item).deliver item) (feed.published ++ [item]) old :=
    fun old hold => h.proper_old hold hnew hseq (hgeneration.trans hgen.ge)
  have hitem : Proper ((feed.hub.noted item).deliver item) (feed.published ++ [item]) item :=
    h.proper_new hseq rfl hgen hgeneration
  refine h.moved ?_ hhanded.live (h.distinct.sublist hhanded.clients) ?_ hhanded.nextClient.ge
    (hgen ▸ h.nonneg.trans hgeneration) hold ?_ ?_
  · refine (h.logged.noted fun event hevent => ?_).congr hhanded.history hhanded.snapshot
    exact (h.event_sequence hevent).trans_lt hnew
  · intro ident hident
    rw [hhanded.nextClient]
    exact h.numbered ident (hhanded.clients.subset hident)
  · intro event hevent
    rw [mem_singleton.1 hevent]
    exact hitem
  · intro ident client' hclient' x hx
    have hident := hhanded.clients.subset (hhanded.live ident client' hclient').1
    obtain ⟨client, hclient, hqueue | ⟨number, -, hhigh, hqueue⟩⟩ :=
      hhanded.own ident hident client' hclient'
    · rw [hqueue] at hx
      rcases mem_append.1 hx with hx | hx
      · exact hold x (h.queued_issued ident client hclient x hx)
      · rw [mem_singleton.1 hx]
        exact hitem
    · rw [hqueue] at hx
      rw [mem_singleton.1 hx]
      exact h.proper_new hhigh rfl hgen hgeneration

/-- What `subscribe` queues is published or a new marker. -/
theorem Sane.proper_backed {sequence : ℕ} (hitem : feed.hub.Backed sequence item)
    (hsequence : hub.sequence = sequence) (hgeneration : hub.generation = feed.hub.generation) :
    item ∈ feed.issued ∨ Proper hub feed.published item := by
  rcases hitem with hhistory | hsnapshot | ⟨-, rfl⟩
  · exact .inl (h.published_issued item (h.logged.recent.subset hhistory))
  · exact .inl (h.published_issued item (h.logged.snapshot_some item hsnapshot).1)
  · exact .inr ⟨hsequence.ge, h.nonneg, hgeneration.ge, fun event hevent _ =>
      h.event_generation hevent⟩

theorem Sane.subscribe (cursor : WatchCursor) :
    (feed.moved (feed.hub.subscribe cursor).2 []).Sane := by
  have hcaught := catchUp_caught feed.hub cursor
    ⟨[], cursor.sequence, cursor.generation, 0, false, false⟩ rfl rfl
  have hfresh : feed.hub.nextClient + 1 ∉ feed.hub.clients := by
    intro hmem
    exact absurd (h.numbered _ hmem) (Nat.not_succ_le_self _)
  refine h.quiet rfl rfl hcaught.sequence le_rfl ?_ ?_ ?_ (Nat.le_succ _) ?_
  · intro ident client hclient
    obtain ⟨rfl, hc⟩ | ⟨-, hold⟩ := client_of_update hclient
    · exact ⟨mem_append_right _ (mem_singleton.2 rfl), some_inj.1 hc ▸ hcaught.connected⟩
    · obtain ⟨hmem, hconn⟩ := h.live ident client hold
      exact ⟨mem_append_left _ hmem, hconn⟩
  · refine nodup_append.2 ⟨h.distinct, nodup_singleton _, fun a ha b hb => ?_⟩
    rintro rfl
    rw [mem_singleton.1 hb] at ha
    exact hfresh ha
  · intro ident hident
    rcases mem_append.1 hident with hident | hident
    · exact (h.numbered ident hident).trans (Nat.le_succ _)
    · exact (mem_singleton.1 hident).le
  · intro ident client hclient item hitem
    obtain ⟨-, hc⟩ | ⟨-, hold⟩ := client_of_update hclient
    · rw [← some_inj.1 hc, hcaught.queue] at hitem
      exact h.proper_backed (hcaught.backed item hitem) rfl rfl
    · exact .inl (h.queued_issued ident client hold item hitem)

theorem Sane.unsubscribe (ident : ℕ) : (feed.moved (feed.hub.unsubscribe ident) []).Sane := by
  refine h.quiet rfl rfl le_rfl le_rfl (fun j client hj => h.live.remove h.distinct ident hj)
    (h.distinct.erase ident) (fun j hj => h.numbered j (mem_of_mem_erase hj)) le_rfl ?_
  intro j client hj item hitem
  obtain ⟨-, hnone⟩ | ⟨-, hold⟩ := client_of_update hj
  · cases hnone
  · exact .inl (h.queued_issued j client hold item hitem)

theorem Sane.take_hub (ident : ℕ) : (feed.moved (feed.hub.take ident).2 []).Sane := by
  obtain ⟨heq, -⟩ | ⟨client, item, rest, hclient, hqueue, -, heq⟩ := take_cases feed.hub ident
  · rw [heq]
    exact h.count le_rfl le_rfl
  · rw [heq]
    refine h.quiet rfl rfl le_rfl le_rfl ?_ h.distinct h.numbered le_rfl ?_
    · intro j c hj
      obtain ⟨rfl, hc⟩ | ⟨-, hold⟩ := client_of_update hj
      · exact some_inj.1 hc ▸ h.live j client hclient
      · exact h.live j c hold
    · intro j c hj x hx
      obtain ⟨rfl, hc⟩ | ⟨-, hold⟩ := client_of_update hj
      · rw [← some_inj.1 hc] at hx
        refine .inl (h.queued_issued j client hclient x ?_)
        rw [hqueue]
        exact .tail _ hx
      · exact .inl (h.queued_issued j c hold x hx)

/-- What `take` finds was issued, and only clients that have subscribed find something. -/
theorem Sane.mem_next (hitem : item ∈ feed.hub.next ident) :
    item ∈ feed.issued ∧ ident ≤ feed.hub.nextClient := by
  obtain ⟨-, hnext⟩ | ⟨client, first, rest, hclient, hqueue, hnext, -⟩ := take_cases feed.hub ident
  · rw [hnext] at hitem
    cases hitem
  · rw [hnext, mem_singleton] at hitem
    refine ⟨h.queued_issued ident client hclient item ?_,
      h.numbered ident (h.live ident client hclient).1⟩
    rw [hitem, hqueue]
    exact .head _

theorem Sane.take (ident : ℕ) :
    ({ feed.moved (feed.hub.take ident).2 [] with
        taken := update feed.taken ident
          (feed.taken ident ++ feed.hub.next ident) } : WatchFeed P).Sane := by
  have hnext : (feed.hub.take ident).2.nextClient = feed.hub.nextClient := by
    obtain ⟨heq, -⟩ | ⟨_, _, _, -, -, -, heq⟩ := take_cases feed.hub ident
    · rw [heq]
    · rw [heq]
  have htaken : ∀ j, ∀ item ∈ update feed.taken ident (feed.taken ident ++ feed.hub.next ident) j,
      item ∈ feed.issued ∧ j ≤ feed.hub.nextClient := by
    intro j item hitem
    have hold : ∀ k, item ∈ feed.taken k → item ∈ feed.issued ∧ k ≤ feed.hub.nextClient := by
      intro k hk
      refine ⟨h.taken_issued k item hk, ?_⟩
      by_contra hlt
      rw [h.untaken k (not_le.1 hlt)] at hk
      exact not_mem_nil hk
    by_cases heq : j = ident
    · subst heq
      rw [update_self] at hitem
      rcases mem_append.1 hitem with hitem | hitem
      · exact hold j hitem
      · exact h.mem_next hitem
    · rw [update_of_ne heq] at hitem
      exact hold j hitem
  refine { h.take_hub ident with
    taken_issued := fun j item hitem => mem_append_left _ (htaken j item hitem).1
    untaken := fun j hj => ?_ }
  refine eq_nil_iff_forall_not_mem.2 fun item hitem => ?_
  exact absurd (hj.trans_le ((htaken j item hitem).2.trans hnext.ge)) (lt_irrefl _)

end WatchFeed

open WatchHub WatchFeed

/-- **One call keeps the invariant.** -/
theorem feedStep_sane {feed feed' : WatchFeed P} {call : WatchCall P} (h : feed.Sane)
    (hstep : feedStep feed call = some feed') : feed'.Sane := by
  cases call with
  | publish kind payload generation full =>
    cases hstep
    obtain ⟨hnone, heq⟩ | ⟨hle, heq⟩ := publish_cases feed.hub kind payload generation full
    · rw [hnone]
      obtain heq | ⟨hle, heq⟩ := heq
      · rw [heq]
        exact h.count le_rfl le_rfl
      · rw [heq]
        exact h.count (Nat.le_succ _) hle
    · rw [heq]
      exact h.deliver rfl hle
  | subscribe cursor =>
    cases hstep
    exact h.subscribe cursor
  | unsubscribe ident =>
    cases hstep
    exact h.unsubscribe ident
  | take ident =>
    cases hstep
    exact h.take ident
  | walk order =>
    rw [feedStep] at hstep
    split at hstep <;> cases hstep
    rename_i hperm
    exact h.quiet rfl rfl le_rfl le_rfl
      (fun j c hj => ⟨hperm.mem_iff.2 (h.live j c hj).1, (h.live j c hj).2⟩)
      (hperm.nodup_iff.2 h.distinct) (fun j hj => h.numbered j (hperm.mem_iff.1 hj)) le_rfl
      fun j c hj x hx => .inl (h.queued_issued j c hj x hx)

theorem run_sane {bounds : HubBounds} {calls : List (WatchCall P)} {feed : WatchFeed P}
    (hrun : Transition.run feedStep (WatchFeed.start bounds) calls = some feed) : feed.Sane :=
  Transition.run_invariant (fun _ _ _ h hstep => feedStep_sane h hstep)
    (WatchFeed.start_sane bounds) hrun

/-! ### What a call does to one client -/

/-- How a call that is not the client's own changes its queue: not at all, or by one new item, at
the end of the queue or in its place. -/
def Nudged (hub : WatchHub P) (client client' : WatchClient P) : Prop :=
  client'.queue = client.queue ∨
    ∃ item, hub.sequence < item.sequence ∧ hub.generation ≤ item.generation ∧
      (client'.queue = client.queue ++ [item] ∨ client'.queue = [item])

structure Grown (hub hub' : WatchHub P) : Prop where
  sequence : hub.sequence ≤ hub'.sequence
  generation : hub.generation ≤ hub'.generation
  nextClient : hub.nextClient ≤ hub'.nextClient

theorem nudged_of_same {hub hub' : WatchHub P}
    (h : ∀ client, hub'.clientMap ident = some client → hub.clientMap ident = some client) :
    ∀ client', hub'.clientMap ident = some client' →
      ∃ client, hub.clientMap ident = some client ∧ Nudged hub client client' :=
  fun client' hclient' => ⟨client', h client' hclient', .inl rfl⟩

/-- **What a call of others does to a client.** -/
theorem feedStep_client {feed feed' : WatchFeed P} {call : WatchCall P} (h : feed.Sane)
    (hstep : feedStep feed call = some feed') (hident : ident ≤ feed.hub.nextClient)
    (hother : call ≠ .take ident) :
    Grown feed.hub feed'.hub ∧ ∀ client', feed'.hub.clientMap ident = some client' →
      ∃ client, feed.hub.clientMap ident = some client ∧ Nudged feed.hub client client' := by
  cases call with
  | publish kind payload generation full =>
    cases hstep
    obtain ⟨-, heq⟩ | ⟨hle, heq⟩ := publish_cases feed.hub kind payload generation full
    · obtain heq | ⟨hle, heq⟩ := heq
      · rw [heq]
        exact ⟨⟨le_rfl, le_rfl, le_rfl⟩, nudged_of_same fun _ hclient => hclient⟩
      · rw [heq]
        exact ⟨⟨Nat.le_succ _, hle, le_rfl⟩, nudged_of_same fun _ hclient => hclient⟩
    · rw [heq]
      have hhanded := deliver_handed (feed.hub.noted (feed.hub.event kind payload generation full))
        (feed.hub.event kind payload generation full) h.distinct h.live
      refine ⟨⟨(Nat.le_succ _).trans hhanded.sequence, hle.trans hhanded.generation.ge,
        hhanded.nextClient.ge⟩, fun client' hclient' => ?_⟩
      have hmem := hhanded.clients.subset (hhanded.live ident client' hclient').1
      obtain ⟨client, hclient, hqueue | ⟨number, hlow, -, hqueue⟩⟩ :=
        hhanded.own ident hmem client' hclient'
      · exact ⟨client, hclient, .inr ⟨_, Nat.lt_succ_self _, hle, .inl hqueue⟩⟩
      · have hnumber : feed.hub.sequence < number := (Nat.lt_succ_self _).trans hlow
        exact ⟨client, hclient, .inr ⟨_, hnumber, hle, .inr hqueue⟩⟩
  | subscribe cursor =>
    cases hstep
    have hcaught := catchUp_caught feed.hub cursor
      ⟨[], cursor.sequence, cursor.generation, 0, false, false⟩ rfl rfl
    refine ⟨⟨hcaught.sequence, le_rfl, Nat.le_succ _⟩, nudged_of_same fun client hclient => ?_⟩
    obtain ⟨heq, -⟩ | ⟨-, hold⟩ := client_of_update hclient
    · exact absurd (heq ▸ hident) (Nat.not_succ_le_self _)
    · exact hold
  | unsubscribe ident' =>
    cases hstep
    refine ⟨⟨le_rfl, le_rfl, le_rfl⟩, nudged_of_same fun client hclient => ?_⟩
    obtain ⟨-, hnone⟩ | ⟨-, hold⟩ := client_of_update hclient
    · cases hnone
    · exact hold
  | take ident' =>
    cases hstep
    obtain ⟨heq, -⟩ | ⟨client, item, rest, -, -, -, heq⟩ := take_cases feed.hub ident'
    · rw [heq]
      exact ⟨⟨le_rfl, le_rfl, le_rfl⟩, nudged_of_same fun _ hclient => hclient⟩
    · rw [heq]
      refine ⟨⟨le_rfl, le_rfl, le_rfl⟩, nudged_of_same fun client hclient => ?_⟩
      obtain ⟨hsame, -⟩ | ⟨-, hold⟩ := client_of_update hclient
      · exact absurd (congrArg WatchCall.take hsame.symm) hother
      · exact hold
  | walk order =>
    rw [feedStep] at hstep
    split at hstep <;> cases hstep
    exact ⟨⟨le_rfl, le_rfl, le_rfl⟩, nudged_of_same fun _ hclient => hclient⟩

end Horizon
