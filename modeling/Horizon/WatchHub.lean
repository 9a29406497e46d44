/-
**The watch hub: sequence numbers, generations and bounded queues.**

`push.WatchHub` numbers the events that are published, remembers the last of them, and queues each
one for every subscriber.  A subscriber whose queue is full loses its queue and gets one marker that
asks for a full resynchronisation instead.  Publishing is refused when the event's generation is
below the hub's.

All bodies of `async with self._lock.write()` are free of awaits, so each is one step here.  An
empty payload, which markers and heartbeats have, is `none`.

Main results:

* `WatchHub.publish_ok_iff` — an event is accepted exactly when its generation is not below
  the hub's and its kind is valid.
-/

import Mathlib.Tactic
import Horizon.PyText

namespace Horizon

open Function

/-! ### Events, cursors and clients -/

/-- `push.WatchEvent`. -/
structure WatchEvent (P : Type) where
  sequence : ℕ
  generation : ℤ
  kind : String
  payload : Option P
  full : Bool := false
  deriving DecidableEq

/-- The check of `kind` in `WatchEvent.__post_init__`. -/
def validKind (kind : String) : Bool :=
  kind ≠ "" && kind.length ≤ 64 && (Text.of kind).all fun c => !Text.isSpace c

/-- `push.WatchCursor`. -/
structure WatchCursor where
  sequence : ℕ := 0
  generation : ℕ := 0
  deriving DecidableEq

/-- `push.WatchClient`; the cursor of a client is the last event it was given. -/
structure WatchClient (P : Type) where
  queue : List (WatchEvent P)
  cursorSequence : ℕ
  cursorGeneration : ℤ
  overflowCount : ℕ := 0
  disconnected : Bool := false
  resyncRequired : Bool := false
  deriving DecidableEq

/-- The bounds a hub is built with, as its constructor checks them. -/
structure HubBounds where
  queueSize : ℕ := 32
  historySize : ℕ := 256
  maxOverflows : ℕ := 3
  queueSize_pos : 1 ≤ queueSize := by decide
  queueSize_le : queueSize ≤ 1024 := by decide
  historySize_pos : 1 ≤ historySize := by decide
  historySize_le : historySize ≤ 4096 := by decide
  maxOverflows_pos : 1 ≤ maxOverflows := by decide
  maxOverflows_le : maxOverflows ≤ 32 := by decide

/-- `push.WatchHub`.  `clients` is the set `_clients`, in the order in which it is walked. -/
structure WatchHub (P : Type) where
  bounds : HubBounds
  history : List (WatchEvent P)
  clients : List ℕ
  clientMap : ℕ → Option (WatchClient P)
  nextClient : ℕ
  sequence : ℕ
  generation : ℤ
  snapshot : Option (WatchEvent P)

namespace WatchHub

variable {P : Type} (bounds : HubBounds) (item : WatchEvent P) (sequence : ℕ)

def new : WatchHub P := ⟨bounds, [], [], fun _ => none, 0, 0, 0, none⟩

/-! ### Queueing -/

def resyncMarker (generation : ℤ) : WatchEvent P :=
  ⟨sequence, generation, "full_resync", none, true⟩

/-- `_enqueue`: the hub's next sequence number and the client afterwards. -/
def enqueue (client : WatchClient P) (item : WatchEvent P) : ℕ × WatchClient P :=
  if client.disconnected then (sequence, client)
  else if client.queue.length < bounds.queueSize then
    (sequence, { client with queue := client.queue ++ [item]
                             cursorSequence := item.sequence
                             cursorGeneration := item.generation })
  else
    (sequence + 1,
      { client with queue := [resyncMarker (sequence + 1) item.generation]
                    cursorSequence := item.sequence
                    cursorGeneration := item.generation
                    overflowCount := client.overflowCount + 1
                    disconnected := bounds.maxOverflows ≤ client.overflowCount + 1
                    resyncRequired := true })

/-- One round of the loop of `publish` over the clients. -/
def deliverTo (hub : WatchHub P) (ident : ℕ) : WatchHub P :=
  match hub.clientMap ident with
  | none => { hub with clients := hub.clients.erase ident }
  | some client =>
    if client.disconnected then { hub with clients := hub.clients.erase ident }
    else
      let out := enqueue hub.bounds hub.sequence client item
      if out.2.disconnected then
        { hub with sequence := out.1
                   clients := hub.clients.erase ident
                   clientMap := update hub.clientMap ident none }
      else
        { hub with sequence := out.1
                   clientMap := update hub.clientMap ident (some out.2) }

/-- The loop of `publish` over the clients. -/
def deliver (hub : WatchHub P) (item : WatchEvent P) : WatchHub P :=
  hub.clients.foldl (deliverTo item) hub

/-- Append to a `deque` of bounded length. -/
def remember (history : List (WatchEvent P)) (item : WatchEvent P) : List (WatchEvent P) :=
  (history ++ [item]).drop (history.length + 1 - bounds.historySize)

/-- The hub after `publish` has numbered an event and set the generation. -/
def advance (hub : WatchHub P) (generation : ℤ) : WatchHub P :=
  { hub with sequence := hub.sequence + 1, generation := generation }

/-- The event `publish` builds. -/
def event (hub : WatchHub P) (kind : String) (payload : P) (generation : ℤ) (full : Bool) :
    WatchEvent P :=
  ⟨hub.sequence + 1, generation, kind, some payload, full⟩

/-- `publish`, from its check under the lock on.  An invalid event is refused only after the
sequence number and the generation were set. -/
def publish (hub : WatchHub P) (kind : String) (payload : P) (generation : ℤ) (full : Bool) :
    Except String (WatchEvent P) × WatchHub P :=
  if generation < hub.generation then (.error "stale generation", hub)
  else if generation < 0 then
    (.error "watch sequence and generation must be non-negative", hub.advance generation)
  else if !validKind kind then (.error "invalid watch event kind", hub.advance generation)
  else
    let item := hub.event kind payload generation full
    (.ok item,
      ({ hub.advance generation with
          history := remember hub.bounds hub.history item
          snapshot := if full then some item else hub.snapshot }).deliver item)

/-! ### Subscribers -/

/-- `_enqueue_resync`: the snapshot if there is one, else a marker with a number of its own. -/
def enqueueResync (hub : WatchHub P) (client : WatchClient P) : ℕ × WatchClient P :=
  match hub.snapshot with
  | some item => enqueue hub.bounds hub.sequence client item
  | none => enqueue hub.bounds (hub.sequence + 1) client
      (resyncMarker (hub.sequence + 1) hub.generation)

def enqueueAll (start : ℕ × WatchClient P) (items : List (WatchEvent P)) : ℕ × WatchClient P :=
  items.foldl (fun acc item => enqueue bounds acc.1 acc.2 item) start

/-- What `subscribe` queues for a client that comes with `cursor`. -/
def catchUp (hub : WatchHub P) (cursor : WatchCursor) (client : WatchClient P) :
    ℕ × WatchClient P :=
  match hub.history.filter fun item => cursor.sequence < item.sequence with
  | first :: rest =>
    if cursor.sequence + 1 < first.sequence then hub.enqueueResync client
    else if hub.generation < cursor.generation then hub.enqueueResync client
    else
      let replay := match hub.snapshot with
        | some s =>
          if cursor.sequence < s.sequence then
            s :: (first :: rest).filter fun item => s.sequence < item.sequence
          else first :: rest
        | none => first :: rest
      enqueueAll hub.bounds (hub.sequence, client)
        (replay.drop (replay.length - hub.bounds.queueSize))
  | [] =>
    if hub.generation < cursor.generation then hub.enqueueResync client
    else match hub.snapshot with
      | some s =>
        if (cursor.generation : ℤ) < s.generation then
          enqueue hub.bounds hub.sequence client s
        else (hub.sequence, client)
      | none => (hub.sequence, client)

/-- `subscribe`: the new client's number and the hub. -/
def subscribe (hub : WatchHub P) (cursor : WatchCursor) : ℕ × WatchHub P :=
  let ident := hub.nextClient + 1
  let out := hub.catchUp cursor ⟨[], cursor.sequence, cursor.generation, 0, false, false⟩
  (ident, { hub with nextClient := ident
                     clients := hub.clients ++ [ident]
                     clientMap := update hub.clientMap ident (some out.2)
                     sequence := out.1 })

/-- `unsubscribe`. -/
def unsubscribe (hub : WatchHub P) (ident : ℕ) : WatchHub P :=
  { hub with clients := hub.clients.erase ident
             clientMap := update hub.clientMap ident none }

/-- `heartbeat`: the next queued event, or a heartbeat when the wait times out. -/
def take (hub : WatchHub P) (ident : ℕ) : WatchEvent P × WatchHub P :=
  match hub.clientMap ident with
  | some client =>
    match client.queue with
    | item :: rest =>
      (item, { hub with clientMap := update hub.clientMap ident
                                      (some { client with queue := rest }) })
    | [] => (⟨hub.sequence, hub.generation, "heartbeat", none, false⟩, hub)
  | none => (⟨hub.sequence, hub.generation, "heartbeat", none, false⟩, hub)

/-! ### The generation -/

@[simp] theorem deliverTo_generation (hub : WatchHub P) (ident : ℕ) :
    (deliverTo item hub ident).generation = hub.generation := by
  unfold deliverTo
  split
  · rfl
  · split
    · rfl
    · dsimp only
      split <;> rfl

@[simp] theorem foldl_deliverTo_generation (idents : List ℕ) (hub : WatchHub P) :
    (idents.foldl (deliverTo item) hub).generation = hub.generation := by
  induction idents generalizing hub with
  | nil => rfl
  | cons ident idents ih => rw [List.foldl_cons, ih, deliverTo_generation]

@[simp] theorem deliver_generation (hub : WatchHub P) (item : WatchEvent P) :
    (hub.deliver item).generation = hub.generation := foldl_deliverTo_generation item _ hub

@[simp] theorem take_generation (hub : WatchHub P) (ident : ℕ) :
    (hub.take ident).2.generation = hub.generation := by
  unfold take
  split
  · split <;> rfl
  · rfl

variable (hub : WatchHub P) (kind : String) (payload : P) (generation : ℤ) (full : Bool)

/-- The generation after `publish`: the event's, unless that is stale. -/
theorem publish_generation :
    (hub.publish kind payload generation full).2.generation = max hub.generation generation := by
  unfold publish
  split
  · rename_i h
    exact (max_eq_left h.le).symm
  · rename_i h
    have hle : hub.generation ≤ generation := not_lt.1 h
    split
    · exact (max_eq_right hle).symm
    · split
      · exact (max_eq_right hle).symm
      · rw [deliver_generation]
        exact (max_eq_right hle).symm

/-- **When an event is accepted.** -/
theorem publish_ok_iff (hnonneg : 0 ≤ hub.generation) (hkind : validKind kind = true) :
    (∃ item, (hub.publish kind payload generation full).1 = .ok item) ↔
      hub.generation ≤ generation := by
  unfold publish
  by_cases h : generation < hub.generation
  · rw [if_pos h]
    constructor
    · rintro ⟨item, hitem⟩
      cases hitem
    · intro hle
      omega
  · have hneg : ¬ generation < 0 := by omega
    rw [if_neg h, if_neg hneg, hkind]
    exact ⟨fun _ => not_lt.1 h, fun _ => ⟨_, rfl⟩⟩

end WatchHub

end Horizon
