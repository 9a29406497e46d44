/-
**At most one execution per request id.**

`Controller._execute` claims a row of `rpc_idempotency` before it dispatches a mutation and stores
the response in that row afterwards.  A second call with the same id finds the row: it answers from
it, polls it while it is pending, or reports a conflict.  The row outlives the process; a restart
completes every pending row with an interruption, and maintenance removes completed rows that are
two days old.

A call is a small program; an event is one of its transactions, or the entry to or the return from
`_dispatch`, or the end of the process.  A call may be cancelled at every place.  The state keeps
three counters that the code does not have: how often an id was passed to `_dispatch`, how often its
row was removed, and the responses `_dispatch` gave for it.

Main definitions:

* `ReplayWorld`, `ReplayEvent`, `replayStep` — the rows, the calls and one event.

Main results:

* `replayStep_move` — everything an event can do.
-/

import Horizon.Transition
import Horizon.Protocol

namespace Horizon

open Function

/-! ### The row -/

inductive ReplayStatus
  | pending
  | completed
  deriving DecidableEq

/-- A row of `rpc_idempotency`, without its key.  `createdAt` is in nanoseconds. -/
structure ReplayRow (τ : Type) where
  canonicalRequest : String
  response : τ
  status : ReplayStatus
  createdAt : ℤ
  deriving DecidableEq

section Answers

variable {R : Type} (id : ℕ)

def conflictFailure : RpcResponse R := failure id .requestIdConflict "request id was already used"

def unavailableFailure : RpcResponse R := failure id .internalError "stored response unavailable"

def inProgressFailure : RpcResponse R :=
  failure id .internalError "request is still in progress" true

def interruptedFailure : RpcResponse R :=
  failure id .internalError "request was interrupted by controller restart" true

end Answers

/-- What `claim` returns: `None`, `_PENDING` or a response. -/
inductive ClaimResult (R : Type)
  | claimed
  | pending
  | answer (r : RpcResponse R)

section Rows

variable {R τ : Type} (codec : ResponseCodec R τ) (now : ℤ)

/-- The callback of `_claim_request` on the row of its id. -/
def claimRow (q : RpcRequest) :
    Option (ReplayRow τ) → ClaimResult R × Option (ReplayRow τ)
  | none => (.claimed, some ⟨q.canonical, codec.blank, .pending, now⟩)
  | some row =>
    (if row.canonicalRequest ≠ q.canonical then .answer (conflictFailure q.requestId)
     else if row.status = .pending then .pending
     else if codec.isBlank row.response then .answer (unavailableFailure q.requestId)
     else match codec.decode row.response with
       | some r => .answer r
       | none => .answer (unavailableFailure q.requestId),
     some row)

/-- The callback of `_store_replay` on a row of its id. -/
def storeRow (q : RpcRequest) (r : RpcResponse R) (row : ReplayRow τ) : ReplayRow τ :=
  if row.canonicalRequest = q.canonical ∧ row.status = .pending then
    { row with response := codec.encode r, status := .completed }
  else row

/-- What `reconcile_startup` does to the row of `id`. -/
def interruptRow (id : ℕ) (row : ReplayRow τ) : ReplayRow τ :=
  if row.status = .pending then
    { row with response := codec.encode (interruptedFailure id), status := .completed }
  else row

/-- The 48 hours of `prune_completed_rpc_idempotency`. -/
def replayRetention : ℤ := 48 * 3600 * 1000000000

/-- The rows `prune_completed_rpc_idempotency` deletes. -/
def prunable (row : ReplayRow τ) : Bool :=
  row.status = .completed && row.createdAt < now - replayRetention

end Rows

/-! ### Calls -/

/-- Where an `execute` call is. -/
inductive CallPlace (R : Type)
  | idle
  /-- It is a pure read, inside `_dispatch`. -/
  | reading (q : RpcRequest)
  /-- It is about to claim. -/
  | claiming (q : RpcRequest)
  /-- It polls in `_wait_for_replay`, `polls` rounds being left. -/
  | waiting (q : RpcRequest) (polls : ℕ)
  /-- It has claimed the row and is about to dispatch. -/
  | dispatching (q : RpcRequest)
  /-- It is inside `_dispatch`. -/
  | running (q : RpcRequest)
  /-- It is about to store the response. -/
  | storing (q : RpcRequest) (r : RpcResponse R)
  | returned (q : RpcRequest) (r : RpcResponse R)

/-- The request whose claim the call holds. -/
def CallPlace.claim {R : Type} : CallPlace R → Option RpcRequest
  | dispatching q | running q | storing q _ => some q
  | _ => none

def CallPlace.active {R : Type} : CallPlace R → Bool
  | idle | returned _ _ => false
  | _ => true

/-- The request and response of a call that returned. -/
def CallPlace.result {R : Type} : CallPlace R → Option (RpcRequest × RpcResponse R)
  | returned q r => some (q, r)
  | _ => none

/-- The table, the calls, whether the daemon serves, and the three ghosts. -/
structure ReplayWorld (R τ : Type) where
  rows : ℕ → Option (ReplayRow τ)
  calls : ℕ → CallPlace R
  serving : Bool
  dispatched : ℕ → ℕ
  pruned : ℕ → ℕ
  answers : ℕ → List (RpcResponse R)

inductive ReplayEvent (R : Type)
  | enter (c : ℕ) (q : RpcRequest)
  | claim (c : ℕ) (now : ℤ)
  | poll (c : ℕ) (now : ℤ)
  | dispatch (c : ℕ)
  | answer (c : ℕ) (r : RpcResponse R)
  | store (c : ℕ)
  | cancel (c : ℕ)
  | crash
  | reconcile
  | prune (now : ℤ)

/-- The number of rounds of `_wait_for_replay`. -/
def replayPolls : ℕ := 1000

variable {R τ : Type} (codec : ResponseCodec R τ) (q : RpcRequest)

namespace ReplayWorld

variable (w : ReplayWorld R τ)

def setCall (c : ℕ) (p : CallPlace R) : ReplayWorld R τ := { w with calls := update w.calls c p }

def setRow (id : ℕ) (row : Option (ReplayRow τ)) : ReplayWorld R τ :=
  { w with rows := update w.rows id row }

end ReplayWorld

/-- After a claim: to `_dispatch`, to the polls, or back to the caller. -/
def afterClaim : ClaimResult R → CallPlace R
  | .claimed => .dispatching q
  | .pending => .waiting q replayPolls
  | .answer r => .returned q r

/-- After a poll: a row that is gone counts as still in progress. -/
def afterPoll (polls : ℕ) : ClaimResult R → CallPlace R
  | .claimed => .returned q (inProgressFailure q.requestId)
  | .pending => .waiting q polls
  | .answer r => .returned q r

def replayStep (w : ReplayWorld R τ) : ReplayEvent R → Option (ReplayWorld R τ)
  | .enter c q =>
    match w.calls c, w.serving with
    | .idle, true =>
      some (w.setCall c (if q.actionClass = .pureRead then .reading q else .claiming q))
    | _, _ => none
  | .claim c now =>
    match w.calls c with
    | .claiming q =>
      let out := claimRow codec now q (w.rows q.requestId)
      some ((w.setRow q.requestId out.2).setCall c (afterClaim q out.1))
    | _ => none
  | .poll c now =>
    match w.calls c with
    | .waiting q 0 => some (w.setCall c (.returned q (inProgressFailure q.requestId)))
    | .waiting q (polls + 1) =>
      let out := claimRow codec now q (w.rows q.requestId)
      some ((w.setRow q.requestId out.2).setCall c (afterPoll q polls out.1))
    | _ => none
  | .dispatch c =>
    match w.calls c with
    | .dispatching q =>
      some ({ w with dispatched := update w.dispatched q.requestId
                                    (w.dispatched q.requestId + 1) }.setCall c (.running q))
    | _ => none
  | .answer c r =>
    match w.calls c with
    | .running q =>
      some ({ w with answers := update w.answers q.requestId
                                  (r :: w.answers q.requestId) }.setCall c (.storing q r))
    | .reading q => some (w.setCall c (.returned q r))
    | _ => none
  | .store c =>
    match w.calls c with
    | .storing q r =>
      some ((w.setRow q.requestId ((w.rows q.requestId).map (storeRow codec q r))).setCall c
        (.returned q r))
    | _ => none
  | .cancel c =>
    match w.calls c with
    | .returned _ _ => none
    | _ => some (w.setCall c .idle)
  | .crash =>
    some { w with calls := fun c => if (w.calls c).result.isSome then w.calls c else .idle
                  serving := false }
  | .reconcile =>
    if w.serving then none
    else some { w with rows := fun id => (w.rows id).map (interruptRow codec id)
                       serving := true }
  | .prune now =>
    some { w with rows := fun id => (w.rows id).filter fun row => !prunable now row
                  pruned := fun id => if (w.rows id).any (prunable now) then w.pruned id + 1
                                      else w.pruned id }

/-! ### What a step can do -/

/-- Where a call goes that finds a row: it answers from it, or waits `polls` more rounds. -/
inductive FromRow (q : RpcRequest) (polls : ℕ) (row : ReplayRow τ) : CallPlace R → Prop
  | conflict (h : row.canonicalRequest ≠ q.canonical) :
      FromRow q polls row (.returned q (conflictFailure q.requestId))
  | wait (h : row.canonicalRequest = q.canonical) (hs : row.status = .pending) :
      FromRow q polls row (.waiting q polls)
  | replay (r : RpcResponse R) (h : row.canonicalRequest = q.canonical)
      (hs : row.status = .completed) (hr : ∀ r', row.response = codec.encode r' → r = r') :
      FromRow q polls row (.returned q r)

inductive ReplayMove (w : ReplayWorld R τ) : ReplayEvent R → ReplayWorld R τ → Prop
  | enter {c : ℕ} {q : RpcRequest} (hc : w.calls c = .idle) (hs : w.serving = true) :
      ReplayMove w (.enter c q)
        (w.setCall c (if q.actionClass = .pureRead then .reading q else .claiming q))
  | claimNew {c : ℕ} {q : RpcRequest} (now : ℤ) (hc : w.calls c = .claiming q)
      (hr : w.rows q.requestId = none) :
      ReplayMove w (.claim c now)
        ((w.setRow q.requestId (some ⟨q.canonical, codec.blank, .pending, now⟩)).setCall c
          (.dispatching q))
  | claimOld {c : ℕ} {q : RpcRequest} {row : ReplayRow τ} {p : CallPlace R} (now : ℤ)
      (hc : w.calls c = .claiming q) (hr : w.rows q.requestId = some row)
      (hp : FromRow codec q replayPolls row p) : ReplayMove w (.claim c now) (w.setCall c p)
  | pollNew {c : ℕ} {q : RpcRequest} {polls : ℕ} (now : ℤ)
      (hc : w.calls c = .waiting q (polls + 1)) (hr : w.rows q.requestId = none) :
      ReplayMove w (.poll c now)
        ((w.setRow q.requestId (some ⟨q.canonical, codec.blank, .pending, now⟩)).setCall c
          (.returned q (inProgressFailure q.requestId)))
  | pollOld {c : ℕ} {q : RpcRequest} {polls : ℕ} {row : ReplayRow τ} {p : CallPlace R} (now : ℤ)
      (hc : w.calls c = .waiting q (polls + 1)) (hr : w.rows q.requestId = some row)
      (hp : FromRow codec q polls row p) : ReplayMove w (.poll c now) (w.setCall c p)
  | pollLast {c : ℕ} {q : RpcRequest} (now : ℤ) (hc : w.calls c = .waiting q 0) :
      ReplayMove w (.poll c now) (w.setCall c (.returned q (inProgressFailure q.requestId)))
  | dispatch {c : ℕ} {q : RpcRequest} (hc : w.calls c = .dispatching q) :
      ReplayMove w (.dispatch c)
        ({ w with dispatched := update w.dispatched q.requestId
                                  (w.dispatched q.requestId + 1) }.setCall c (.running q))
  | answer {c : ℕ} {q : RpcRequest} (r : RpcResponse R) (hc : w.calls c = .running q) :
      ReplayMove w (.answer c r)
        ({ w with answers := update w.answers q.requestId
                               (r :: w.answers q.requestId) }.setCall c (.storing q r))
  | read {c : ℕ} {q : RpcRequest} (r : RpcResponse R) (hc : w.calls c = .reading q) :
      ReplayMove w (.answer c r) (w.setCall c (.returned q r))
  | store {c : ℕ} {q : RpcRequest} {r : RpcResponse R} (hc : w.calls c = .storing q r) :
      ReplayMove w (.store c)
        ((w.setRow q.requestId ((w.rows q.requestId).map (storeRow codec q r))).setCall c
          (.returned q r))
  | cancel {c : ℕ} (hc : (w.calls c).result = none) : ReplayMove w (.cancel c) (w.setCall c .idle)
  | crash : ReplayMove w .crash
      { w with calls := fun c => if (w.calls c).result.isSome then w.calls c else .idle
               serving := false }
  | reconcile (hs : w.serving = false) : ReplayMove w .reconcile
      { w with rows := fun id => (w.rows id).map (interruptRow codec id), serving := true }
  | prune (now : ℤ) : ReplayMove w (.prune now)
      { w with rows := fun id => (w.rows id).filter fun row => !prunable now row
               pruned := fun id => if (w.rows id).any (prunable now) then w.pruned id + 1
                                   else w.pruned id }

variable {codec} {w w' : ReplayWorld R τ} {ev : ReplayEvent R} (now : ℤ)

theorem ReplayWorld.setRow_self {id : ℕ} {row : Option (ReplayRow τ)} (h : w.rows id = row) :
    w.setRow id row = w := by
  rw [ReplayWorld.setRow, ← h, Function.update_eq_self]

theorem claimRow_some (q : RpcRequest) (polls : ℕ) (row : ReplayRow τ) :
    (claimRow codec now q (some row)).2 = some row ∧
      FromRow codec q polls row (afterPoll q polls (claimRow codec now q (some row)).1) := by
  refine ⟨rfl, ?_⟩
  simp only [claimRow]
  split
  · rename_i h; exact .conflict h
  rename_i hcan
  have hcan : row.canonicalRequest = q.canonical := not_not.1 hcan
  split
  · rename_i hs; exact .wait hcan hs
  rename_i hs
  have hs : row.status = .completed := by
    cases h : row.status with
    | pending => exact absurd h hs
    | completed => rfl
  split
  · rename_i hblank
    refine .replay _ hcan hs fun r' hr' => ?_
    rw [hr', codec.isBlank_encode] at hblank
    cases hblank
  · split
    · rename_i r hdec
      refine .replay _ hcan hs fun r' hr' => ?_
      rw [hr', codec.decode_encode] at hdec
      exact (Option.some.inj hdec).symm
    · rename_i hdec
      refine .replay _ hcan hs fun r' hr' => ?_
      rw [hr', codec.decode_encode] at hdec
      cases hdec

theorem afterClaim_some (q : RpcRequest) (row : ReplayRow τ) :
    afterClaim q (claimRow codec now q (some row)).1 =
      afterPoll q replayPolls (claimRow codec now q (some row)).1 := by
  simp only [claimRow]
  split_ifs
  · rfl
  · rfl
  · rfl
  · split <;> rfl

/-- **Every step is one of the moves.** -/
theorem replayStep_move (h : replayStep codec w ev = some w') : ReplayMove codec w ev w' := by
  cases ev with
  | enter c q =>
    simp only [replayStep] at h
    split at h <;> cases h
    exact .enter ‹_› ‹_›
  | claim c now =>
    simp only [replayStep] at h
    split at h <;> cases h
    rename_i q hc
    cases hr : w.rows q.requestId with
    | none => exact .claimNew now hc hr
    | some row =>
      rw [(claimRow_some now q replayPolls row).1, ReplayWorld.setRow_self hr, afterClaim_some]
      exact .claimOld now hc hr (claimRow_some now q replayPolls row).2
  | poll c now =>
    simp only [replayStep] at h
    split at h <;> cases h
    · exact .pollLast now ‹_›
    · rename_i q polls hc
      cases hr : w.rows q.requestId with
      | none => exact .pollNew now hc hr
      | some row =>
        rw [(claimRow_some now q polls row).1, ReplayWorld.setRow_self hr]
        exact .pollOld now hc hr (claimRow_some now q polls row).2
  | dispatch c =>
    simp only [replayStep] at h
    split at h <;> cases h
    exact .dispatch ‹_›
  | answer c r =>
    simp only [replayStep] at h
    split at h <;> cases h
    · exact .answer r ‹_›
    · exact .read r ‹_›
  | store c =>
    simp only [replayStep] at h
    split at h <;> cases h
    exact .store ‹_›
  | cancel c =>
    simp only [replayStep] at h
    split at h <;> cases h
    rename_i hc
    refine .cancel ?_
    cases hp : w.calls c with
    | returned q r => exact absurd hp (hc q r)
    | idle | reading | claiming | waiting | dispatching | running | storing => rfl
  | crash => cases h; exact .crash
  | reconcile =>
    simp only [replayStep] at h
    split at h <;> cases h
    rename_i hs
    exact .reconcile (by simpa using hs)
  | prune now => cases h; exact .prune now

end Horizon
