/-
**Requests and responses of the control protocol.**

The part of `protocol.py` that the controller and the socket server read: request identities, the
classification of actions, error codes and the response envelope.  The type of successful results
is a parameter; what the server needs to know of a result is stated where it needs it.

Main definitions:

* `ErrorCode`, `RpcError`, `RpcResponse`, `failure`;
* `RpcRequest` — a request as the idempotency layer sees it;
* `ResponseCodec` — `response_json` and `response_from_json`, with the round trip.
-/

import Mathlib.Tactic

namespace Horizon

/-- `protocol.ErrorCode`. -/
inductive ErrorCode
  | slotConflict
  | profileReserved
  | lowDisk
  | lowMemory
  | requiredFileMissing
  | upstreamUnavailable
  | startTimeout
  | healthFailed
  | graceTimeout
  | backupFailed
  | restoreFailed
  | updateFailed
  | benchmarkFailed
  | confirmationExpired
  | confirmationMismatch
  | requestIdConflict
  | retirementFailed
  | retirementUnavailable
  | unauthorizedPeer
  | invalidRequest
  | invalidState
  | internalError
  deriving DecidableEq

/-- `protocol.RpcError`; `details` is its JSON text. -/
structure RpcError where
  code : ErrorCode
  message : String
  retryable : Bool := false
  details : Option String := none
  deriving DecidableEq

/-- `protocol.RpcResponse`. -/
inductive RpcResponse (R : Type)
  | success (requestId : ℕ) (result : R)
  | failure (requestId : ℕ) (error : RpcError)
  deriving DecidableEq

/-- `protocol.failure`. -/
def failure {R : Type} (requestId : ℕ) (code : ErrorCode) (message : String)
    (retryable : Bool := false) (details : Option String := none) : RpcResponse R :=
  .failure requestId ⟨code, (message.take 512).toString, retryable, details⟩

/-- Does the request take part in durable idempotency? -/
inductive ActionClass
  | pureRead
  | mutation
  deriving DecidableEq

/-- A request: its id, the class of its action and the text `_canonical` makes of it. -/
structure RpcRequest where
  requestId : ℕ
  actionClass : ActionClass
  canonical : String
  deriving DecidableEq

/-- `response_json` and `response_from_json`.  `τ` is the text of the response column, `isBlank` the
emptiness test on it; every response is decoded from what it was encoded to. -/
structure ResponseCodec (R τ : Type) where
  encode : RpcResponse R → τ
  decode : τ → Option (RpcResponse R)
  blank : τ
  isBlank : τ → Bool
  isBlank_blank : isBlank blank = true
  isBlank_encode : ∀ r, isBlank (encode r) = false
  decode_encode : ∀ r, decode (encode r) = some r

/-- The codec whose texts are the responses themselves. -/
def ResponseCodec.plain (R : Type) : ResponseCodec R (Option (RpcResponse R)) where
  encode := some
  decode := id
  blank := none
  isBlank := Option.isNone
  isBlank_blank := rfl
  isBlank_encode _ := rfl
  decode_encode _ := rfl

end Horizon
