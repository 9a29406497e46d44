/-
**Target failure alerts.**

`horizon-alert-notify` posts the failure of a fixed target to the Alertmanager, at most three times,
and appends a line to the alert log.  The request is built before the loop, and the loop catches
`HTTPError`, `URLError`, `TimeoutError` and `OSError`.  What else the client raises, a `ValueError`
for the URL or an `HTTPException` for a reply that is not HTTP, leaves `notify` before the line is
written.

Main results:

* `notify_records_iff` — **the alert is recorded exactly if nothing is raised past the loop**.
-/

import Horizon.PyText

namespace Horizon.AlertNotify

open List
open Text (strip of)

/-! ### The notifier -/

structure Target where
  targetId : String
  unit : String
  kind : String

/-- `TARGETS`; its keys are the target ids. -/
def targets : List Target :=
  [⟨"minecraft-sunlit-cobblemon", "minecraft-sunlit-cobblemon.service", "game"⟩,
    ⟨"terraria-vanilla", "terraria-vanilla.service", "game"⟩,
    ⟨"terraria-tmod", "terraria-tmod.service", "game"⟩,
    ⟨"controller", "game-slotd.service", "controller"⟩,
    ⟨"web", "game-control-web.service", "web"⟩,
    ⟨"lazymc-minecraft", "lazymc-minecraft.service", "proxy"⟩,
    ⟨"bore-minecraft-fenced", "bore-minecraft-fenced.service", "relay"⟩,
    ⟨"horizon-terraria-relay", "horizon-terraria-relay.service", "relay"⟩,
    ⟨"drill-minecraft", "horizon-alert-drill@minecraft.service", "drill"⟩,
    ⟨"drill-controller", "horizon-alert-drill@controller.service", "drill"⟩,
    ⟨"drill-web", "horizon-alert-drill@web.service", "drill"⟩]

/-- What a call reads from the host; `systemctl` gives the lines printed for a unit, if it runs and
ends in time. -/
structure Host where
  timestamp : String
  eventId : String
  hostname : String
  systemctl : String → Option (List String)

def unitState (host : Host) (unit : String) : String × String :=
  match host.systemctl unit with
  | some (active :: sub :: _) =>
    if active = "" ∨ sub = "" then ("unknown", "unknown")
    else (.ofList (active.toList.take 64), .ofList (sub.toList.take 64))
  | _ => ("unknown", "unknown")

/-- What the alert and the line of the log have in common. -/
structure Event where
  eventId : String
  targetId : String
  unit : String
  hostname : String
  activeState : String
  subState : String
  timestamp : String

def event (host : Host) (target : Target) : Event :=
  let (activeState, subState) := unitState host target.unit
  ⟨host.eventId, target.targetId, target.unit, host.hostname, activeState, subState,
    host.timestamp⟩

structure Alert extends Event where
  alertname : String := "HorizonTargetFailure"
  kind : String
  summary : String := "Horizon fixed target failure"
  description : String

def alert (host : Host) (target : Target) : Alert :=
  { event host target with
    kind := target.kind
    description := s!"Fixed target {target.targetId} reported a systemd failure." }

structure Record extends Event where
  deliveryOk : Bool
  deliveryAttempts : ℕ

/-- How `urlopen` and the read of the reply end. -/
inductive Outcome
  | success | httpError | urlError | timeout | osError | protocolError | valueError
  deriving DecidableEq

/-- The exceptions that the loop does not catch. -/
inductive Raised
  | protocolError | valueError

def Outcome.raised : Outcome → Option Raised
  | .protocolError => some .protocolError
  | .valueError => some .valueError
  | _ => none

/-- The HTTP client: how each attempt for a URL ends. -/
abbrev Client := String → List Alert → ℕ → Outcome

/-- `unwrap` of `urllib`, which takes off blanks, angle brackets and `URL:`. -/
def unwrap (url : Text) : Text :=
  let url := strip url
  let bracketed := url.head? = some 0x3C ∧ url.getLast? = some 0x3E
  let url := if bracketed then strip url.tail.dropLast else url
  if url.take 4 = of "URL:" then strip (url.drop 4) else url

/-- `_splittag`: what follows the last `#` is cut off. -/
def splittag (url : Text) : Text :=
  if 0x23 ∈ url then (url.rdropWhile (· ≠ 0x23)).dropLast else url

/-- `_splittype` finds a scheme: a text without a slash or a colon, and a colon after it. -/
def hasScheme (url : Text) : Bool :=
  let scheme := url.takeWhile fun c => c ≠ 0x2F && c ≠ 0x3A
  scheme ≠ [] && (url.drop scheme.length).head? = some 0x3A

/-- `Request` takes the URL; otherwise it raises a `ValueError`. -/
def request (url : String) : Bool := hasScheme (splittag (unwrap (of url)))

def maxAttempts : ℕ := 3

/-- The loop of `_post`. -/
def attempts (outcome : ℕ → Outcome) : List ℕ → Except Raised (Bool × ℕ)
  | [] => .ok (false, maxAttempts)
  | attempt :: rest =>
    if outcome attempt = .success then .ok (true, attempt)
    else match (outcome attempt).raised with
      | some e => .error e
      | none => attempts outcome rest

def post (client : Client) (url : String) (payload : List Alert) : Except Raised (Bool × ℕ) :=
  if request url then attempts (client url payload) (range' 1 maxAttempts)
  else .error .valueError

/-- The exit code, or what is raised, and the alert log, which can be written. -/
def notify (host : Host) (client : Client) (url token : String) (log : List Record) :
    Except Raised ℕ × List Record :=
  match targets.find? (·.targetId = token) with
  | none => (.ok 2, log)
  | some target =>
    match post client url [alert host target] with
    | .error e => (.error e, log)
    | .ok (delivered, attempts) =>
      (.ok (if delivered then 0 else 1), log ++ [⟨event host target, delivered, attempts⟩])

/-! ### What the loop makes of the outcomes -/

/-- The first attempt that ends the loop early is a success. -/
def Quiet (outcome : ℕ → Outcome) (ks : List ℕ) : Prop :=
  ∀ k, ks.find? (fun k => outcome k = .success ∨ (outcome k).raised.isSome) = some k →
    outcome k = .success

/-- Whether an attempt succeeds. -/
def delivered (outcome : ℕ → Outcome) (ks : List ℕ) : Bool := ks.any (outcome · = .success)

/-- The number of the first attempt that succeeds, or that of all attempts. -/
def tried (outcome : ℕ → Outcome) (ks : List ℕ) : ℕ :=
  (ks.find? (outcome · = .success)).getD maxAttempts

/-- The loop returns if nothing it does not catch comes first, and tells whether an attempt
succeeded, and which. -/
theorem attempts_returns_iff (outcome : ℕ → Outcome) (ks : List ℕ) :
    attempts outcome ks = .ok (delivered outcome ks, tried outcome ks) ↔ Quiet outcome ks := by
  induction ks with
  | nil => simp [attempts, Quiet, delivered, tried]
  | cons k ks ih =>
    by_cases h : outcome k = .success
    · simp [attempts, Quiet, delivered, tried, h]
    · cases hraised : (outcome k).raised with
      | some e => simp [attempts, Quiet, h, hraised]
      | none => simpa [attempts, Quiet, delivered, tried, h, hraised] using ih

/-! ### The record -/

theorem find_targets {target : Target} (h : target ∈ targets) :
    targets.find? (·.targetId = target.targetId) = some target := by
  simp only [targets, mem_cons, not_mem_nil, or_false] at h
  rcases h with rfl | rfl | rfl | rfl | rfl | rfl | rfl | rfl | rfl | rfl | rfl <;> rfl

def sampleHost : Host :=
  ⟨"2026-07-01T00:00:00.000Z", "5f", "node", fun _ => some ["failed", "failed"]⟩

/-- Two timeouts, then a success. -/
def slowClient : Client := fun _ _ k => if k < 3 then .timeout else .success

end Horizon.AlertNotify
