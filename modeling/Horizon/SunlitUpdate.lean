/-
**Runs of the updater.**

A run of `sunlit_update` stages the release that is offered upstream, reserves the profile with a
fresh capability token, asks the controller for a backup under that token, checks that the backup is
protected, promotes the candidate and writes a row of history.  It can raise anywhere, or die.

What outlives a run is kept in four places: the production directories and the candidate, the files
of the staging directory, the idempotency rows of the controller, and the table of updates.  The
controller works on its own: between two steps of a run a pending request may be completed, and a
completed one pruned.  Uuids and tokens are never drawn twice.

Main definitions:

* `Sunlit.UpdateWorld`, `Sunlit.RunMoment`, `Sunlit.Run`;
* `Sunlit.installedVersion`, `Sunlit.requireSpace`, `Sunlit.stage`;
* `Sunlit.backupRequestId`, `Sunlit.createBackup`, `Sunlit.requestBackup`;
* `Sunlit.run`, `Sunlit.UpdateRun.perform`, `Sunlit.performAll`.
-/

import Horizon.SunlitPromote

namespace Horizon.Sunlit

open Coroutine.Coro (raise)
open Coroutine (Coro)

/-! ### What outlives a run -/

/-- A file that is created before its text is written. -/
inductive StoredId
  | malformed
  | stored (id : ℕ)
  deriving DecidableEq

/-- `backup-request-authority.json`; the digest of a token stands for the token. -/
structure Authority where
  requestId : ℕ
  operationId : ℕ
  capability : ℕ
  deriving DecidableEq

/-- The staging directory of a version, without its candidate. -/
structure Staging where
  operationId : Option StoredId
  /-- `manifest.json`, by the release whose overlay it names. -/
  manifest : Option Version
  archive : Bool
  requestId : Option ℕ
  authority : Option Authority
  /-- The requests with a recovery file. -/
  recovered : List ℕ
  deriving DecidableEq

def Staging.new : Staging := ⟨none, none, false, none, none, []⟩

/-- The answers that the updater distinguishes. -/
inductive RpcOutcome
  | success (backup : ℕ)
  | prejobSlotConflict
  | failure
  deriving DecidableEq

/-- A row of `rpc_idempotency`. -/
inductive RpcRow
  | pending
  | completed (outcome : RpcOutcome)
  deriving DecidableEq

/-- What may have become of a row: it is completed once, and then at most pruned. -/
def RpcRow.advance : Option RpcRow → Option RpcRow → Option RpcRow
  | none, _ => none
  | some .pending, some row => some row
  | some .pending, none => some .pending
  | some (.completed o), some _ => some (.completed o)
  | some (.completed _), none => none

structure UpdateWorld where
  site : Site
  staging : Version → Staging
  rows : ℕ → Option RpcRow
  /-- The uuids and tokens drawn so far. -/
  drawn : ℕ
  minted : ℕ
  /-- The rows of `updates`: the prior version and the new one. -/
  updates : List (Option Version × Version)

/-- The columns that `_request_backup` reads. -/
structure Protection where
  verified : ℕ
  isProtected : ℕ
  uploadState : String
  remoteVerified : ℕ
  comparisonState : String
  deriving DecidableEq

/-- `(1, 1, "succeeded", 1, "verified")`. -/
def Protection.full : Protection := ⟨1, 1, "succeeded", 1, "verified"⟩

/-! ### Runs -/

structure RunMoment where
  /-- What the controller has made of the requests. -/
  controller : ℕ → Option RpcRow
  /-- The step raises an error of the system. -/
  broken : Bool
  /-- The step raises an exception that no clause expects. -/
  aborted : Bool
  inactive : Bool
  /-- `reserve_if_available` finds the profile free. -/
  available : Bool
  owned : Bool
  enoughSpace : Bool
  /-- The token of the live update reservation. -/
  live : Option ℕ
  /-- How the backup ends, if it has ended when the answer is due. -/
  outcome : Option RpcOutcome
  protections : ℕ → Option Protection
  /-- How a step of the promotion ends. -/
  fate : Fate

/-- The moments of one run; at `none` the process dies. -/
abbrev RunOracle := ℕ → Option RunMoment

inductive RunFailure
  | update (message : String)
  | aborted
  | died
  deriving DecidableEq

/-- What a run does to the world outside its own process. -/
inductive RunEvent
  | reserved (operation token : ℕ)
  /-- `create_backup` reaches the handler. -/
  | dispatched (request token : ℕ)
  /-- The stored answer to an earlier request. -/
  | replayed (request : ℕ)
  | answered (backup : ℕ)
  | checked (backup : ℕ) (row : Option Protection)
  | promoting
  deriving DecidableEq

structure RunState where
  world : UpdateWorld
  log : List RunEvent
  moments : ℕ
  alive : Bool

abbrev Run := Coro RunState RunFailure

/-- `{"state": …}`. -/
inductive RunResult
  | current
  | deferred
  | promoted (backup : ℕ)
  deriving DecidableEq

/-- What `discover` returns, with what the archive contains and its manifest. -/
structure Release where
  version : Version
  content : ℕ
  manifest : Digest
  deriving DecidableEq

section Steps

variable {α : Type} (ω : RunOracle) (message : String)

def UpdateWorld.advance (w : UpdateWorld) (m : RunMoment) : UpdateWorld :=
  { w with rows := fun id => RpcRow.advance (w.rows id) (m.controller id) }

/-- One step: what it answers, what it leaves, and what it reports. -/
def perform (f : RunMoment → UpdateWorld → Except String (α × UpdateWorld × List RunEvent)) :
    Run α := fun s =>
  if s.alive then
    match ω s.moments with
    | none => (.error .died, { s with alive := false })
    | some m =>
      let w := s.world.advance m
      let s' := { s with world := w, moments := s.moments + 1 }
      if m.aborted then (.error .aborted, s')
      else if m.broken then (.error (.update message), s')
      else
        match f m w with
        | .error e => (.error (.update e), s')
        | .ok (a, w', events) => (.ok a, { s' with world := w', log := s.log ++ events })
  else (.error .died, s)

def observe (f : RunMoment → UpdateWorld → Except String α) : Run α :=
  perform ω message fun m w => (f m w).map fun a => (a, w, [])

def require (p : RunMoment → UpdateWorld → Bool) : Run Unit :=
  observe ω message fun m w => if p m w then .ok () else .error message

def write (f : UpdateWorld → UpdateWorld) : Run Unit :=
  perform ω message fun _ w => .ok ((), f w, [])

end Steps

namespace UpdateWorld

variable (w : UpdateWorld)

def setStaging (v : Version) (f : Staging → Staging) : UpdateWorld :=
  { w with staging := Function.update w.staging v (f (w.staging v)) }

end UpdateWorld

section Run

variable (ω : RunOracle) (release : Release) (operation token : ℕ) (pid : ℕ)

/-- `_installed_version`: the metadata, if the active link confirms it. -/
def installedVersion (w : Site) : Except String (Option Version) :=
  match (w.stateRoot.bind (·.metadata)).bind (·.release) with
  | none => .ok none
  | some record =>
    match w.activeLink with
    | none => .ok none
    | some u =>
      if (w.releases u).isNone then .error "installed Sunlit version cannot be verified"
      else if u = record.version then .ok (some u) else .ok none

/-- `_trusted_release_overlay`, by the release that contains the overlay. -/
def trustedOverlay (w : Site) : Except String Version :=
  match w.activeRelease with
  | none => .error "installed Sunlit release is unavailable"
  | some u => .ok u

/-- `_require_space`: the staged manifest has to name the overlay of the active release. -/
def requireSpace : Run Unit :=
  observe ω "free space for Sunlit update cannot be proven" fun m w => do
    let overlay ← trustedOverlay w.site
    match (w.staging release.version).manifest with
    | some named =>
      if named = overlay then .ok ()
      else .error "existing staging identity does not match upstream"
    | none =>
      if (w.site.candidates release.version).record.isSome then
        .error "existing staged candidate has no manifest"
      else .ok ()
    if m.enoughSpace then .ok () else .error "insufficient free space for Sunlit"

def assertOwned : Run Unit := require ω "Sunlit update reservation was lost" fun m _ => m.owned

/-- `_staged_operation_id`. -/
def stagedOperationId : Run ℕ := do
  let staging ← observe ω "update staging root is unavailable" fun _ w =>
    .ok (w.staging release.version)
  match staging.operationId with
  | some (.stored id) => pure id
  | some .malformed => raise (.update "staged update identity is malformed")
  | none =>
    if staging = Staging.new then do
      write ω "staged update identity is unavailable" fun w =>
        w.setStaging release.version fun g => { g with operationId := some .malformed }
      perform ω "staged update identity is unavailable" fun _ w =>
        .ok (w.drawn, { w.setStaging release.version fun g =>
          { g with operationId := some (.stored w.drawn) } with drawn := w.drawn + 1 }, [])
    else raise (.update "staged update identity is missing")

/-- `_reserve_update`; `none` when the profile is not available. -/
def reserveUpdate (operation : ℕ) : Run (Option ℕ) :=
  perform ω "Sunlit update reservation is unavailable" fun m w =>
    if m.available then
      .ok (some w.minted, { w with minted := w.minted + 1 }, [.reserved operation w.minted])
    else .ok (none, w, [])

/-- The candidate that `stage` builds. -/
def stagedCandidate (w : UpdateWorld) : Candidate where
  record := some ⟨release.version, release.manifest⟩
  runtime := some ⟨release.content, false, false, true⟩
  state := some ⟨(w.site.stateRoot.map (·.stable)).getD 0,
    [(release.version, ⟨release.content, false⟩)], none, false, true⟩
  report := none

/-- `stage`; a candidate without its record is removed again, unless the process dies. -/
def buildCandidate : Run Unit :=
  Coro.tryExcept
    (do
      require ω "staging archive is unavailable" fun _ w => (w.staging release.version).archive
      require ω "candidate staging failed" fun _ w =>
        (w.site.candidates release.version) = Candidate.absent
      write ω "candidate staging failed" fun w =>
        { w with site := w.site.setCandidate release.version fun k =>
            { k with runtime := some ⟨release.content, false, false, false⟩ } }
      write ω "candidate staging failed" fun w =>
        { w with site := w.site.setCandidate release.version fun _ => stagedCandidate release w })
    fun e => do
      write ω "candidate staging failed" fun w =>
        { w with site := w.site.setCandidate release.version fun k =>
            if k.record.isSome then k else Candidate.absent }
      raise e

/-- `_download`, if there is no archive yet. -/
def download (archive : Bool) : Run Unit :=
  if archive then pure ()
  else
    write ω "server-pack download response is not exact" fun w =>
      w.setStaging release.version fun g => { g with archive := true }

/-- The archive and the manifest of `_stage`. -/
def stageManifest (staging : Staging) (overlay : Version) : Run Unit :=
  match staging.manifest with
  | some named =>
    require ω "existing staging identity does not match upstream" fun _ _ => named = overlay
  | none => do
    download ω release staging.archive
    write ω "manifest generation failed" fun w =>
      w.setStaging release.version fun g => { g with manifest := some overlay }

/-- `_stage`. -/
def stage : Run Unit := do
  let overlay ← observe ω "Sunlit overlay is unavailable" fun _ w => trustedOverlay w.site
  let staging ← observe ω "local update metadata is missing" fun _ w =>
    .ok (w.staging release.version)
  stageManifest ω release staging overlay
  requireSpace ω release
  let candidate ← observe ω "local update metadata is missing" fun _ w =>
    .ok (w.site.candidates release.version)
  if candidate.record.isSome then
    require ω "existing staged candidate identity mismatch" fun _ _ =>
      candidate.record = some ⟨release.version, release.manifest⟩
  else buildCandidate ω release

/-! ### The backup -/

/-- `_write_request_authority`. -/
def writeRequestAuthority (operation token request : ℕ) : Run Unit :=
  write ω "backup request state is unavailable" fun w =>
    w.setStaging release.version fun g => { g with authority := some ⟨request, operation, token⟩ }

/-- A new request id and its authority, one file after the other. -/
def newRequest : Run ℕ := do
  let request ← perform ω "backup request state is unavailable" fun _ w =>
    .ok (w.drawn, { w.setStaging release.version fun g => { g with requestId := some w.drawn } with
      drawn := w.drawn + 1 }, [])
  writeRequestAuthority ω release operation token request
  pure request

/-- `_request_bound_to_live_lease`. -/
def boundToLiveLease (operation token request : ℕ) (g : Staging) : Bool :=
  g.authority = some ⟨request, operation, token⟩

/-- `_backup_request_id`. -/
def backupRequestId : Run ℕ := do
  let staging ← observe ω "backup request state is unsafe" fun _ w =>
    .ok (w.staging release.version)
  match staging.requestId with
  | none => newRequest ω release operation token
  | some request =>
    let row ← observe ω "backup request state is unavailable" fun _ w => .ok (w.rows request)
    match row with
    | some (.completed .prejobSlotConflict) => do
      write ω "backup request state is unavailable" fun w =>
        w.setStaging release.version fun g => { g with recovered := request :: g.recovered }
      newRequest ω release operation token
    | some (.completed (.success _)) =>
      let bound ← observe ω "backup request state is unsafe" fun _ w =>
        .ok (boundToLiveLease operation token request (w.staging release.version))
      if bound then pure request
      else raise (.update ("a completed pre-update backup from an earlier run cannot be " ++
        "proven fresh; refusing to reuse it"))
    | none => raise (.update "backup request outcome is unknown")
    | some .pending => raise (.update "backup request outcome is ambiguous; refusing to act")
    | some (.completed .failure) => raise (.update "backup request previously failed")

/-- How `_create_backup` answers a request that has not been seen before: the capability has to be
that of the live reservation. -/
def handoff (m : RunMoment) (token : ℕ) : Option RpcOutcome :=
  if m.live = some token then m.outcome else some .failure

/-- The helper, and the controller behind it. -/
def createBackup (request token : ℕ) : Run ℕ := do
  let answer ← perform ω "update helper failed: sunlit backup RPC" fun m w =>
    match w.rows request with
    | some .pending => .ok (none, w, [])
    | some (.completed o) => .ok (some o, w, [.replayed request])
    | none =>
      let row : RpcRow :=
        match handoff m token with
        | some o => .completed o
        | none => .pending
      .ok (handoff m token, { w with rows := Function.update w.rows request (some row) },
        [.dispatched request token])
  match answer with
  | some (.success backup) =>
    perform ω "backup response is malformed" fun _ w => .ok (backup, w, [.answered backup])
  | _ => raise (.update "update helper failed: sunlit backup RPC")

/-- `_request_backup`. -/
def requestBackup : Run ℕ := do
  let request ← backupRequestId ω release operation token
  let backup ← createBackup ω request token
  let row ← perform ω "backup protection state is unavailable" fun m w =>
    .ok (m.protections backup, w, [.checked backup (m.protections backup)])
  if row = some Protection.full then pure backup
  else raise (.update "pre-update backup is not fully protected")

/-! ### The promotion -/

/-- The steps of the run that the promoter takes. -/
def RunOracle.fates : Fates := fun k =>
  match ω k with
  | none => .die
  | some m => m.fate

/-- What `run` makes of an exception of the promoter. -/
def promotionResult : Except Halt Unit → Except RunFailure Unit
  | .ok () => .ok ()
  | .error .died => .error .died
  | .error .aborted => .error .aborted
  | .error (.raised _) => .error (.update "candidate promotion failed")
  | .error .refused => .error (.update "candidate promotion failed")

def promotion : Run Unit := fun s =>
  let ended := (promote ⟨release.version, release.manifest, pid⟩ ω.fates).run
    ⟨s.world.site, {}, s.moments, s.alive⟩
  (promotionResult ended.1,
    { s with world := { s.world with site := ended.2.site }
             moments := ended.2.steps, alive := ended.2.alive })

/-- `promote_candidate`. -/
def promoteCandidate : Run Unit := do
  perform ω "candidate promotion failed" fun _ w => .ok ((), w, [.promoting])
  promotion ω release pid

/-- `_record` and the release of the reservation, under the guard. -/
def recordUpdate (installed : Option Version) : Run Unit := do
  require ω "Sunlit update reservation was lost" fun m _ => m.owned && m.inactive
  write ω "update history state is unavailable" fun w =>
    { w with updates := w.updates ++ [(installed, release.version)] }
  require ω "Sunlit update reservation could not be released" fun _ _ => true

/-- The block of `run` that holds the reservation. -/
def runReserved (pid operation token : ℕ) (installed : Option Version) : Run RunResult := do
  assertOwned ω
  requireSpace ω release
  stage ω release
  assertOwned ω
  requireSpace ω release
  let backup ← requestBackup ω release operation token
  assertOwned ω
  requireSpace ω release
  promoteCandidate ω release pid
  assertOwned ω
  recordUpdate ω release installed
  write ω "unlink" fun w => w.setStaging release.version fun g => { g with archive := false }
  pure (.promoted backup)

/-- `run(check_only=False)`. -/
def run : Run RunResult := do
  let installed ← observe ω "local update metadata is missing" fun _ w => installedVersion w.site
  if installed = some release.version then pure .current
  else
    let inactive ← observe ω "Sunlit inactive state cannot be verified" fun m _ => .ok m.inactive
    if !inactive then pure .deferred
    else
      let operation ← stagedOperationId ω release
      let lease ← reserveUpdate ω operation
      match lease with
      | none => pure .deferred
      | some token =>
        Coro.tryFinally (runReserved ω release pid operation token installed) fun failed =>
          -- `lease.close()`; its own error counts only if there is no other
          Coro.tryExcept
            (require ω "Sunlit update reservation could not be released" fun _ _ => true)
            fun e => if failed && e ≠ .died then pure () else raise e

end Run

/-! ### Sequences of runs -/

/-- A run, with what is offered upstream and what it meets. -/
structure UpdateRun where
  release : Release
  pid : ℕ
  oracle : RunOracle

def UpdateRun.start (w : UpdateWorld) : RunState := ⟨w, [], 0, true⟩

def UpdateRun.perform (r : UpdateRun) (w : UpdateWorld) : Except RunFailure RunResult × RunState :=
  (run r.oracle r.release r.pid).run (UpdateRun.start w)

def performAll (runs : List UpdateRun) (w : UpdateWorld) : UpdateWorld :=
  runs.foldl (fun w r => (r.perform w).2.world) w

end Horizon.Sunlit
