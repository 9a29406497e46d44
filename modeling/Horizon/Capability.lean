/-
**Capability tokens and their requests.**

`CapabilityTokenStore` keeps issued tokens and the requests that were made with them.  `begin`
checks the token, looks for an earlier request with the same id, takes the request out of the
token's budget and inserts a pending row; `complete` stores the answer and from time to time removes
old answers of status requests.  `CapabilityService.handle` runs `begin`, awaits `_dispatch` and
runs `complete`.  Between two awaits nothing else runs, so an event of the model is the part of a
call up to its next await, a cancellation at one, or the end of the process.

Instants are stored as texts and compared as texts wherever SQL compares them.

The state keeps a log of what happened, latest entry first: issued and revoked tokens, requests that
were handed to `_dispatch`, rows that were removed.

Main results:

* `Capability.Store.beginRequest_cases` — the ways in which `begin` can end.
-/

import Horizon.Calendar
import Horizon.PyText
import Horizon.Reservation
import Horizon.Transition

namespace Horizon.Capability

open List
open Function

/-! ### Instants -/

/-- An aware `datetime`: microseconds since the year one. -/
structure Instant where
  micros : ℕ
  inRange : micros < Calendar.limit
deriving DecidableEq

variable (t : Instant)

/-- `_iso`. -/
def Instant.text : Text := Calendar.iso t.micros

def second : ℕ := 1000000

/-- `now - timedelta(seconds=n)`, which overflows before the year one. -/
def Instant.back (seconds : ℕ) : Option Instant :=
  if seconds * second ≤ t.micros then
    some ⟨t.micros - seconds * second, (Nat.sub_le _ _).trans_lt t.inRange⟩
  else none

/-- `now + ttl`, which overflows after the year 9999. -/
def Instant.ahead (span : ℕ) : Option Instant :=
  if h : t.micros + span < Calendar.limit then some ⟨t.micros + span, h⟩ else none

/-! ### Tokens -/

inductive Audience
  | lazymc
  | heliosMcp
deriving DecidableEq

inductive Role
  | observer
  | waker
deriving DecidableEq

/-- `CapabilityAction.kind`. -/
inductive Kind
  | status
  | wake
  | tps
deriving DecidableEq

/-- `CapabilityAction.window`. -/
inductive StatsWindow
  | oneHour
  | sixHours
  | oneDay
deriving DecidableEq

inductive CapabilityError
  | invalidBinding
  | invalidExpiry
  | invalidRateBudget
  | invalidRateWindow
  | invalidWakeCooldown
  | unknownToken
  | invalidToken
  | audienceMismatch
  | tokenRevoked
  | tokenExpired
  | wakeCooldown
  | rateWindowExhausted
  | requestIdConflict
  | requestInProgress
  | overflow
  | integrity
deriving DecidableEq

/-- `CAPABILITY_START_PROFILE`. -/
def startProfile : ProfileId := .minecraftSunlitCobblemon

/-- `_validate_binding`. -/
def bindingApproved (role : Role) (audience : Audience) (profileId : Option ProfileId) : Bool :=
  match role with
  | .observer => audience = .heliosMcp && profileId = none
  | .waker => profileId = some startProfile

/-- A row of `capability_tokens`. -/
structure Token where
  role : Role
  audience : Audience
  profileId : Option ProfileId
  expiresAt : Instant
  rateBudget : ℕ
  rateWindowSeconds : ℕ
  windowStartedAt : Instant
  usedCount : ℕ
  wakeCooldownSeconds : ℕ
  lastWakeAt : Option Instant
  revokedAt : Option Instant
deriving DecidableEq

/-- The arguments of `issue`, spans of time in microseconds. -/
structure Terms where
  role : Role
  audience : Audience
  profileId : Option ProfileId
  ttl : ℕ
  rateBudget : ℕ
  rateWindow : ℕ
  wakeCooldown : ℕ
deriving DecidableEq

/-- `CAPABILITY_MAX_TTL`. -/
def maxTtl : ℕ := 30 * 86400 * second

/-- `CAPABILITY_MAX_RATE_WINDOW`, `CAPABILITY_MAX_WAKE_COOLDOWN`. -/
def maxSpan : ℕ := 3600 * second

/-- `issue`: the row that is inserted. -/
def Terms.issue (terms : Terms) (now : Instant) : Except CapabilityError Token :=
  if !bindingApproved terms.role terms.audience terms.profileId then .error .invalidBinding
  else if terms.ttl = 0 ∨ maxTtl < terms.ttl then .error .invalidExpiry
  else if terms.rateBudget = 0 ∨ 1000 < terms.rateBudget then .error .invalidRateBudget
  else if terms.rateWindow = 0 ∨ maxSpan < terms.rateWindow then .error .invalidRateWindow
  else if maxSpan < terms.wakeCooldown then .error .invalidWakeCooldown
  else if terms.rateWindow / second < 1 then .error .invalidRateWindow
  else
    match now.ahead terms.ttl with
    | none => .error .overflow
    | some expiresAt =>
      .ok { role := terms.role
            audience := terms.audience
            profileId := terms.profileId
            expiresAt := expiresAt
            rateBudget := terms.rateBudget
            rateWindowSeconds := terms.rateWindow / second
            windowStartedAt := now
            usedCount := 0
            wakeCooldownSeconds := terms.wakeCooldown / second
            lastWakeAt := none
            revokedAt := none }

variable (token : Token) (cutoff : Instant) {now : Instant}

/-- `revoked_at IS NULL AND expires_at>?`. -/
def Token.usable (now : Instant) : Bool := token.revokedAt.isNone && now.text < token.expiresAt.text

/-- `rate_window_started_at<=?`. -/
def Token.restarts : Bool := token.windowStartedAt.text ≤ cutoff.text

/-- `last_wake_at IS NULL OR last_wake_at<=?`. -/
def Token.cooled : Bool := token.lastWakeAt.all fun last => last.text ≤ cutoff.text

/-- `_consume_budget`: the row after its `UPDATE`, and whether the rate window was restarted. -/
def Token.consumeBudget (kind : Kind) (now : Instant) : Except CapabilityError (Token × Bool) :=
  if kind = .wake then
    match now.back token.wakeCooldownSeconds with
    | none => .error .overflow
    | some cutoff =>
      if token.usable now && token.cooled cutoff then
        .ok ({ token with lastWakeAt := some now }, false)
      else .error .wakeCooldown
  else
    match now.back token.rateWindowSeconds with
    | none => .error .overflow
    | some cutoff =>
      if token.usable now && (token.restarts cutoff || token.usedCount < token.rateBudget) then
        if token.restarts cutoff then
          .ok ({ token with windowStartedAt := now, usedCount := 1 }, true)
        else .ok ({ token with usedCount := token.usedCount + 1 }, false)
      else .error .rateWindowExhausted

/-- What a consumption of the budget does: a wake is recorded, the rate window is restarted, or one
more request is counted in it. -/
theorem Token.consumeBudget_cases {token token' : Token} {kind : Kind} {restart : Bool}
    (h : token.consumeBudget kind now = .ok (token', restart)) :
    token.usable now = true ∧
      ((kind = .wake ∧ restart = false ∧ token' = { token with lastWakeAt := some now } ∧
          ∃ cutoff, now.back token.wakeCooldownSeconds = some cutoff ∧
            token.cooled cutoff = true) ∨
        (kind ≠ .wake ∧ restart = true ∧
          token' = { token with windowStartedAt := now, usedCount := 1 } ∧
          ∃ cutoff, now.back token.rateWindowSeconds = some cutoff ∧
            token.restarts cutoff = true) ∨
        (kind ≠ .wake ∧ restart = false ∧
          token' = { token with usedCount := token.usedCount + 1 } ∧
          token.usedCount < token.rateBudget)) := by
  unfold Token.consumeBudget at h
  split at h
  · next hkind =>
    split at h
    · cases h
    · next cutoff hcutoff =>
      split at h
      · next husable =>
        rw [Bool.and_eq_true] at husable
        cases h
        exact ⟨husable.1, .inl ⟨hkind, rfl, rfl, cutoff, hcutoff, husable.2⟩⟩
      · cases h
  · next hkind =>
    split at h
    · cases h
    · next cutoff hcutoff =>
      split at h
      · next husable =>
        rw [Bool.and_eq_true] at husable
        refine ⟨husable.1, .inr ?_⟩
        split at h
        · next hrestarts =>
          cases h
          exact .inl ⟨hkind, rfl, rfl, cutoff, hcutoff, hrestarts⟩
        · next hrestarts =>
          cases h
          refine .inr ⟨hkind, rfl, rfl, ?_⟩
          simpa [hrestarts] using husable.2
      · cases h

/-! ### Requests -/

/-- `CapabilityRequest`; its canonical form is the request itself. -/
structure Request where
  requestId : ℕ
  kind : Kind
  window : StatsWindow
deriving DecidableEq

inductive RowStatus
  | pending
  | completed
deriving DecidableEq

abbrev Key := ℕ × ℕ

/-- A row of `capability_requests`. -/
structure Row (B : Type) where
  tokenId : ℕ
  requestId : ℕ
  canonical : Request
  response : Option B
  status : RowStatus
  actionKind : Kind
  successful : Bool
  createdAt : Instant
deriving DecidableEq

variable {B : Type} {row : Row B} {out : Row B × ℕ → Bool} (rows : List (Row B))

def Row.key (row : Row B) : Key := (row.tokenId, row.requestId)

/-- `action_kind='status' AND status='completed' AND successful=1`. -/
def Row.prunable (row : Row B) : Bool :=
  row.actionKind = .status && row.status = .completed && row.successful

/-- The table `capability_requests`, in the order of its row ids. -/
structure Requests (B : Type) where
  rows : List (Row B)
  unique : (rows.map Row.key).Nodup

namespace Requests

variable (table : Requests B) {key : Key}

def find (key : Key) : Option (Row B) := table.rows.find? fun row => row.key = key

/-- `INSERT`, which the primary key can refuse. -/
def insert (row : Row B) : Option (Requests B) :=
  if h : row.key ∈ table.rows.map Row.key then none
  else
    some ⟨table.rows ++ [row], by
      rw [map_append, map_singleton, ← concat_eq_append]
      exact table.unique.concat h⟩

/-- The rows that are left by a `DELETE`. -/
def keep (p : Row B → Bool) : Requests B :=
  ⟨table.rows.filter p, table.unique.sublist (filter_sublist.map Row.key)⟩

/-- `UPDATE … SET response_json=?,status='completed',successful=? WHERE … AND status='pending'`. -/
def finish (row : Row B) (key : Key) (body : B) (ok : Bool) : Row B :=
  if row.key = key ∧ row.status = .pending then
    { row with response := some body, status := .completed, successful := ok }
  else row

theorem finish_key (row : Row B) (key : Key) (body : B) (ok : Bool) :
    (finish row key body ok).key = row.key := by
  unfold finish
  split <;> rfl

def complete (key : Key) (body : B) (ok : Bool) : Requests B :=
  ⟨table.rows.map fun row => finish row key body ok, by
    rw [map_map]
    exact (map_congr_left fun row _ => finish_key row key body ok) ▸ table.unique⟩

theorem find_eq_some {table : Requests B} (h : table.find key = some row) :
    row ∈ table.rows ∧ row.key = key :=
  ⟨mem_of_find?_eq_some h, by simpa using find?_some h⟩

theorem find_eq_none {table : Requests B} (h : table.find key = none) :
    ∀ row ∈ table.rows, row.key ≠ key := by
  rw [find, find?_eq_none] at h
  simpa using h

theorem mem_insert {table table' : Requests B} (h : table.insert row = some table') :
    table'.rows = table.rows ++ [row] := by
  unfold insert at h
  split at h <;> cases h
  rfl

end Requests

/-! ### The store -/

structure Store (B : Type) where
  tokens : ℕ → Option Token
  requests : Requests B
  lastPrunedAt : Instant

variable (s : Store B) (tokenId : ℕ) (audience : Audience) (r : Row B × ℕ)

/-- `_grant`.  A bearer text stands for the id of its token. -/
def Store.grant (expected : Audience) (now : Instant) : Except CapabilityError Token :=
  match s.tokens tokenId with
  | none => .error .invalidToken
  | some token =>
    if token.audience ≠ expected then .error .audienceMismatch
    else if token.revokedAt.isSome then .error .tokenRevoked
    else if token.expiresAt.micros ≤ now.micros then .error .tokenExpired
    else if bindingApproved token.role token.audience token.profileId then .ok token
    else .error .invalidToken

/-- `CAPABILITY_STATUS_REPLAY_WINDOW`. -/
def replayWindow : ℕ := 600 * second

/-- The successive readings of the clock in one call of `begin`. -/
structure Readings where
  granted : Instant
  replayed : Instant
  charged : Instant
  inserted : Instant
deriving DecidableEq

/-- The replay of a successful status request has expired. -/
def Row.replayExpired (row : Row B) (now : Instant) : Bool :=
  row.actionKind = .status && row.successful && row.createdAt.micros + replayWindow ≤ now.micros

/-- What `begin` returns: a stored answer, or leave to dispatch. -/
inductive Answer (B : Type)
  | replay (body : B)
  | dispatch (restart : Bool)
deriving DecidableEq

/-- How a call of `begin` ends, and the row that it removed because its replay had expired. -/
structure Begun (B : Type) where
  answer : Except CapabilityError (Answer B)
  store : Store B
  expired : Option (Row B)

/-- The end of `begin`: the budget is consumed and a pending row is inserted. -/
def Store.enroll (token : Token) (request : Request) (clock : Readings) (expired : Option (Row B)) :
    Begun B :=
  match token.consumeBudget request.kind clock.charged with
  | .error e => ⟨.error e, s, expired⟩
  | .ok (token', restart) =>
    match s.requests.insert
        { tokenId, requestId := request.requestId, canonical := request, response := none
          status := .pending, actionKind := request.kind, successful := false
          createdAt := clock.inserted } with
    | none => ⟨.error .integrity, s, expired⟩
    | some requests =>
      ⟨.ok (.dispatch restart),
        { s with tokens := update s.tokens tokenId (some token'), requests }, expired⟩

/-- `begin`. -/
def Store.beginRequest (request : Request) (clock : Readings) : Begun B :=
  match s.grant tokenId audience clock.granted with
  | .error e => ⟨.error e, s, none⟩
  | .ok token =>
    match s.requests.find (tokenId, request.requestId) with
    | none => s.enroll tokenId token request clock none
    | some row =>
      if row.canonical ≠ request then ⟨.error .requestIdConflict, s, none⟩
      else
        match row.status, row.response with
        | .completed, some body =>
          if row.replayExpired clock.replayed then
            { s with requests := s.requests.keep (·.key ≠ row.key) }.enroll tokenId token request
              clock (some row)
          else ⟨.ok (.replay body), s, none⟩
        | _, _ => ⟨.error .requestInProgress, s, none⟩

/-- A row whose answer can be dispatched again. -/
def Row.Spent (row : Row B) : Prop :=
  row.actionKind = .status ∧ row.status = .completed ∧ row.successful = true

/-- A call of `begin` that leads to a dispatch: there was no row, or its replay had expired. -/
structure Admitted (s : Store B) (tokenId : ℕ) (request : Request) (clock : Readings)
    (restart : Bool) (s' : Store B) (expired : Option (Row B)) : Prop where
  tokens : ∃ token token', s.tokens tokenId = some token ∧
    token.consumeBudget request.kind clock.charged = .ok (token', restart) ∧
    s'.tokens = update s.tokens tokenId (some token')
  inserted : ∃ row ∈ s'.requests.rows, row.key = (tokenId, request.requestId)
  kept : ∀ row ∈ s.requests.rows, row.key ≠ (tokenId, request.requestId) → row ∈ s'.requests.rows
  absent : expired = none → ∀ row ∈ s.requests.rows, row.key ≠ (tokenId, request.requestId)

/-- A row that `begin` removes. -/
structure Expired (s : Store B) (tokenId : ℕ) (request : Request) (now : Instant) (row : Row B) :
    Prop where
  mem : row ∈ s.requests.rows
  key_eq : row.key = (tokenId, request.requestId)
  canonical : row.canonical = request
  spent : row.Spent
  passed : row.createdAt.micros + replayWindow ≤ now.micros

theorem Store.enroll_cases (s₀ s : Store B) (tokenId : ℕ) (token : Token) (request : Request)
    (clock : Readings) (expired : Option (Row B)) (htoken : s₀.tokens tokenId = some token)
    (htokens : s.tokens = s₀.tokens)
    (hkept : ∀ row ∈ s₀.requests.rows, row.key ≠ (tokenId, request.requestId) →
      row ∈ s.requests.rows)
    (habsent : expired = none → ∀ row ∈ s₀.requests.rows, row.key ≠ (tokenId, request.requestId)) :
    (s.enroll tokenId token request clock expired).expired = expired ∧
      (((∃ e, (s.enroll tokenId token request clock expired).answer = .error e) ∧
          (s.enroll tokenId token request clock expired).store = s) ∨
        ∃ restart, (s.enroll tokenId token request clock expired).answer = .ok (.dispatch restart) ∧
          Admitted s₀ tokenId request clock restart
            (s.enroll tokenId token request clock expired).store expired) := by
  unfold Store.enroll
  split
  · next e _ => exact ⟨rfl, .inl ⟨⟨e, rfl⟩, rfl⟩⟩
  · next token' restart hbudget =>
    split
    · exact ⟨rfl, .inl ⟨⟨_, rfl⟩, rfl⟩⟩
    · next requests hinsert =>
      have hrows := Requests.mem_insert hinsert
      refine ⟨rfl, .inr ⟨restart, rfl, ?_⟩⟩
      refine ⟨⟨token, token', htoken, hbudget, by rw [← htokens]⟩, ?_, ?_, habsent⟩
      · exact ⟨_, by rw [hrows]; exact mem_append_right _ (mem_singleton_self _), rfl⟩
      · intro row hrow hne
        rw [hrows]
        exact mem_append_left _ (hkept row hrow hne)

/-- **The ways in which `begin` can end.**  Nothing changes; or a row whose replay has expired is
removed and the call fails; or the request may be dispatched. -/
theorem Store.beginRequest_cases (request : Request) (clock : Readings) :
    let begun := s.beginRequest tokenId audience request clock
    (begun.store = s ∧ begun.expired = none ∧ (∀ restart, begun.answer ≠ .ok (.dispatch restart))) ∨
      (∃ row, begun.expired = some row ∧ Expired s tokenId request clock.replayed row ∧
        begun.store = { s with requests := s.requests.keep (·.key ≠ row.key) } ∧
        ∀ restart, begun.answer ≠ .ok (.dispatch restart)) ∨
      (∃ restart, begun.answer = .ok (.dispatch restart) ∧
        (∀ row ∈ begun.expired, Expired s tokenId request clock.replayed row) ∧
        Admitted s tokenId request clock restart begun.store begun.expired) := by
  intro begun
  have hgrant : ∀ token, s.grant tokenId audience clock.granted = .ok token →
      s.tokens tokenId = some token := by
    intro token h
    unfold Store.grant at h
    split at h
    · cases h
    · next token' htoken =>
      split_ifs at h
      cases h
      exact htoken
  show _ ∨ _
  simp only [begun, Store.beginRequest]
  split
  · exact .inl ⟨rfl, rfl, nofun⟩
  next token htoken =>
  have htoken := hgrant token htoken
  split
  · next hnone =>
    have habsent := Requests.find_eq_none hnone
    obtain ⟨hexpired, ⟨⟨e, he⟩, hstore⟩ | ⟨restart, hanswer, hadmitted⟩⟩ :=
      s.enroll_cases s tokenId token request clock none htoken rfl (fun row h _ => h)
        fun _ => habsent
    · exact .inl ⟨hstore, hexpired, fun restart h => by rw [he] at h; cases h⟩
    · refine .inr (.inr ⟨restart, hanswer, ?_, ?_⟩)
      · rw [hexpired]
        simp
      · rw [hexpired]
        exact hadmitted
  next row hrow =>
  obtain ⟨hmem, hkey⟩ := Requests.find_eq_some hrow
  split
  · exact .inl ⟨rfl, rfl, nofun⟩
  next hcanonical =>
  split
  · next body hstatus hresponse =>
    split
    · next hexpired =>
      simp only [Row.replayExpired, Bool.and_eq_true, decide_eq_true_eq] at hexpired
      have hrowExpired : Expired s tokenId request clock.replayed row :=
        ⟨hmem, hkey, not_not.1 hcanonical, ⟨hexpired.1.1, hstatus, hexpired.1.2⟩, hexpired.2⟩
      have hkept : ∀ r ∈ s.requests.rows, r.key ≠ (tokenId, request.requestId) →
          r ∈ (s.requests.keep (·.key ≠ row.key)).rows := by
        intro r hr hne
        refine mem_filter.2 ⟨hr, decide_eq_true ?_⟩
        rw [hkey]
        exact hne
      obtain ⟨hexp, ⟨⟨e, he⟩, hstore⟩ | ⟨restart, hanswer, hadmitted⟩⟩ :=
        s.enroll_cases { s with requests := s.requests.keep (·.key ≠ row.key) } tokenId token
          request clock (some row) htoken rfl hkept nofun
      · exact .inr (.inl ⟨row, hexp, hrowExpired, hstore, fun restart h =>
          by rw [he] at h; cases h⟩)
      · refine .inr (.inr ⟨restart, hanswer, ?_, ?_⟩)
        · rw [hexp]
          simpa using hrowExpired
        · rw [hexp]
          exact hadmitted
    · exact .inl ⟨rfl, rfl, nofun⟩
  · exact .inl ⟨rfl, rfl, nofun⟩

/-! ### Retention -/

/-- Rows on their way through the three rules of retention. -/
structure Swept (B : Type) where
  table : Requests B
  dropped : List (Row B)

/-- One `DELETE` by row id: `out` sees a row with its place in the table. -/
def Swept.sweep (x : Swept B) (out : Row B × ℕ → Bool) : Swept B where
  table :=
    ⟨(x.table.rows.zipIdx.filter fun r => !out r).map Prod.fst, by
      have hsub : List.Sublist ((x.table.rows.zipIdx.filter fun r => !out r).map Prod.fst)
          x.table.rows := by
        conv_rhs => rw [← zipIdx_map_fst 0 x.table.rows]
        exact filter_sublist.map Prod.fst
      exact x.table.unique.sublist (hsub.map Row.key)⟩
  dropped := x.dropped ++ (x.table.rows.zipIdx.filter out).map Prod.fst

/-- `ORDER BY created_at ASC, rowid ASC`. -/
def older (a b : Row B × ℕ) : Bool :=
  a.1.createdAt.text < b.1.createdAt.text || (a.1.createdAt.text = b.1.createdAt.text && a.2 < b.2)

/-- `created_at<?`. -/
def outByAge (cutoff : Instant) (r : Row B × ℕ) : Bool :=
  r.1.prunable && r.1.createdAt.text < cutoff.text

/-- `CAPABILITY_STATUS_REPLAY_PER_TOKEN_CAP`. -/
def perTokenCap : ℕ := 128

/-- `CAPABILITY_STATUS_REPLAY_GLOBAL_CAP`. -/
def globalCap : ℕ := 4096

/-- `row_number>?` among the rows of the token, latest first. -/
def outByToken : Bool :=
  r.1.prunable && perTokenCap ≤
    rows.zipIdx.countP fun q => q.1.prunable && q.1.tokenId = r.1.tokenId && older r q

/-- `LIMIT` to the excess, oldest first. -/
def outByCount : Bool :=
  r.1.prunable && (rows.zipIdx.countP fun q => q.1.prunable && older q r) <
    rows.countP Row.prunable - globalCap

/-- `CAPABILITY_RETENTION_MAINTENANCE_INTERVAL`. -/
def maintenanceInterval : ℕ := 60 * second

/-- `_prune_status_retention`, and the rows that it removes. -/
def Store.prune (now : Instant) : Store B × List (Row B) :=
  if now.micros < s.lastPrunedAt.micros + maintenanceInterval then (s, [])
  else
    match now.back 600 with
    | none => (s, [])
    | some cutoff =>
      let aged := Swept.sweep ⟨s.requests, []⟩ (outByAge cutoff)
      let capped := aged.sweep (outByToken aged.table.rows)
      let swept := capped.sweep (outByCount capped.table.rows)
      ({ s with requests := swept.table, lastPrunedAt := now }, swept.dropped)

theorem Swept.mem_sweep {x : Swept B} (h : row ∈ x.table.rows ∨ row ∈ x.dropped) :
    row ∈ (x.sweep out).table.rows ∨ row ∈ (x.sweep out).dropped := by
  rcases h with h | h
  · rw [← zipIdx_map_fst 0 x.table.rows] at h
    obtain ⟨r, hr, rfl⟩ := mem_map.1 h
    cases hout : out r with
    | false => exact .inl (mem_map.2 ⟨r, mem_filter.2 ⟨hr, by rw [hout]; rfl⟩, rfl⟩)
    | true =>
      exact .inr (mem_append_right _ (mem_map.2 ⟨r, mem_filter.2 ⟨hr, hout⟩, rfl⟩))
  · exact .inr (mem_append_left _ h)

theorem Swept.sweep_dropped {x : Swept B} (hout : ∀ r, out r = true → r.1.prunable = true)
    (h : ∀ row ∈ x.dropped, row.prunable = true) :
    ∀ row ∈ (x.sweep out).dropped, row.prunable = true := by
  intro row hrow
  rcases mem_append.1 hrow with hrow | hrow
  · exact h row hrow
  · obtain ⟨r, hr, rfl⟩ := mem_map.1 hrow
    exact hout r (mem_filter.1 hr).2

theorem Row.spent_of_prunable (h : row.prunable = true) : row.Spent := by
  simpa [Row.prunable, Row.Spent, and_assoc] using h

/-- **What retention does to the rows**: each is kept or dropped, and the dropped ones are of
successful status requests. -/
theorem Store.mem_prune (now : Instant) :
    (∀ row ∈ s.requests.rows, row ∈ (s.prune now).1.requests.rows ∨ row ∈ (s.prune now).2) ∧
      (∀ row ∈ (s.prune now).2, row.Spent) ∧ (s.prune now).1.tokens = s.tokens := by
  unfold Store.prune
  split
  · exact ⟨fun row h => .inl h, fun row h => absurd h not_mem_nil, rfl⟩
  split
  · exact ⟨fun row h => .inl h, fun row h => absurd h not_mem_nil, rfl⟩
  refine ⟨fun row h => ?_, fun row h => Row.spent_of_prunable ?_, rfl⟩
  · exact Swept.mem_sweep (Swept.mem_sweep (Swept.mem_sweep (.inl h)))
  · have hand : ∀ {a b : Bool}, (a && b) = true → a = true := fun h => (Bool.and_eq_true_iff.1 h).1
    exact Swept.sweep_dropped (fun _ => hand)
      (Swept.sweep_dropped (fun _ => hand) (Swept.sweep_dropped (fun _ => hand)
        fun row h => absurd h not_mem_nil)) row h

/-- The size bound of `complete`: `response_too_large` takes the place of a longer answer. -/
structure Codec (B : Type) where
  tooLarge : B → Bool
  replacement : B

variable (codec : Codec B)

/-- `complete`, and the rows that retention removes. -/
def Store.complete (s : Store B) (key : Key) (body : B) (ok : Bool) (now : Instant) :
    Store B × List (Row B) :=
  let large := codec.tooLarge body
  { s with
    requests := s.requests.complete key (if large then codec.replacement else body)
      (!large && ok) }.prune now

theorem Store.complete_spec (s : Store B) (key : Key) (body : B) (ok : Bool) (now : Instant) :
    (∀ row ∈ s.requests.rows,
      (∃ r ∈ (s.complete codec key body ok now).1.requests.rows, r.key = row.key) ∨
        ∃ r ∈ (s.complete codec key body ok now).2, r.key = row.key) ∧
      (∀ row ∈ (s.complete codec key body ok now).2, row.Spent) ∧
      (s.complete codec key body ok now).1.tokens = s.tokens := by
  obtain ⟨hrows, hspent, htokens⟩ := Store.mem_prune
    { s with
      requests := s.requests.complete key (if codec.tooLarge body then codec.replacement else body)
        (!codec.tooLarge body && ok) } now
  refine ⟨fun row hrow => ?_, hspent, htokens⟩
  rcases hrows _ (mem_map_of_mem hrow) with h | h
  · exact .inl ⟨_, h, Requests.finish_key _ _ _ _⟩
  · exact .inr ⟨_, h, Requests.finish_key _ _ _ _⟩

/-! ### Calls, crashes and the log -/

inductive Cause
  | expired (now : Instant)
  | retention
deriving DecidableEq

inductive Entry (B : Type)
  | issued (tokenId : ℕ) (time : Instant)
  | revoked (tokenId : ℕ)
  | dispatched (tokenId : ℕ) (request : Request) (time : Instant) (restart : Bool)
  | removed (row : Row B) (cause : Cause)
deriving DecidableEq

structure World (B : Type) where
  store : Store B
  /-- The calls of `handle` that await `_dispatch`. -/
  running : ℕ → Option (ℕ × Request)
  log : List (Entry B)

inductive Event (B : Type)
  | issue (tokenId : ℕ) (terms : Terms) (now : Instant)
  | revoke (tokenId : ℕ) (now : Instant)
  | handle (call tokenId : ℕ) (audience : Audience) (request : Request) (clock : Readings)
  | finish (call : ℕ) (body : B) (ok : Bool) (now : Instant)
  | cancel (call : ℕ)
  | crash

/-- The world after `begin` has returned to `handle`. -/
def World.begun (w : World B) (call tokenId : ℕ) (request : Request) (clock : Readings)
    (begun : Begun B) : World B :=
  let log := (begun.expired.map (Entry.removed · (.expired clock.replayed))).toList ++ w.log
  match begun.answer with
  | .ok (.dispatch restart) =>
    { store := begun.store
      running := update w.running call (some (tokenId, request))
      log := .dispatched tokenId request clock.charged restart :: log }
  | _ => { w with store := begun.store, log }

/-- The world after `complete`, with the store and the rows that retention has removed. -/
def World.finished (w : World B) (call : ℕ) (done : Store B × List (Row B)) : World B where
  store := done.1
  running := update w.running call none
  log := done.2.map (Entry.removed · .retention) ++ w.log

/-- One event.  A refused call changes nothing; `call` names a call that is not running yet, and
`tokenId` is drawn anew by `issue`. -/
def step (w : World B) : Event B → Option (World B)
  | .issue tokenId terms now =>
    match w.store.tokens tokenId, terms.issue now with
    | none, .ok token =>
      some { w with
        store := { w.store with
          tokens := update w.store.tokens tokenId (some token) }
        log := .issued tokenId now :: w.log }
    | _, _ => some w
  | .revoke tokenId now =>
    match w.store.tokens tokenId with
    | none => some w
    | some token =>
      some { w with
        store := { w.store with
          tokens := update w.store.tokens tokenId
            (some { token with revokedAt := token.revokedAt.or (some now) }) }
        log := .revoked tokenId :: w.log }
  | .handle call tokenId audience request clock =>
    if (w.running call).isSome then none
    else
      some (w.begun call tokenId request clock
        (w.store.beginRequest tokenId audience request clock))
  | .finish call body ok now =>
    (w.running call).map fun x =>
      w.finished call (w.store.complete codec (x.1, x.2.requestId) body ok now)
  | .cancel call => (w.running call).map fun _ => { w with running := update w.running call none }
  | .crash => some { w with running := fun _ => none }

/-- A store at the start of the process, before anything is logged. -/
def World.start (store : Store B) : World B := ⟨store, fun _ => none, []⟩

/-- What an event does to the tokens and to the log. -/
inductive Effect (w w' : World B) : Event B → Prop
  | quiet {event : Event B} (store : w'.store = w.store) (log : w'.log = w.log) : Effect w w' event
  | issue {tokenId : ℕ} {terms : Terms} {now : Instant} {token : Token}
      (fresh : w.store.tokens tokenId = none) (issued : terms.issue now = .ok token)
      (tokens : w'.store.tokens = update w.store.tokens tokenId (some token))
      (requests : w'.store.requests = w.store.requests)
      (log : w'.log = .issued tokenId now :: w.log) : Effect w w' (.issue tokenId terms now)
  | revoke {tokenId : ℕ} {now : Instant} {token : Token}
      (found : w.store.tokens tokenId = some token)
      (tokens : w'.store.tokens = update w.store.tokens tokenId
        (some { token with revokedAt := token.revokedAt.or (some now) }))
      (requests : w'.store.requests = w.store.requests)
      (log : w'.log = .revoked tokenId :: w.log) : Effect w w' (.revoke tokenId now)
  | expire {call tokenId : ℕ} {audience : Audience} {request : Request} {clock : Readings}
      {row : Row B} (expired : Expired w.store tokenId request clock.replayed row)
      (store : w'.store = { w.store with requests := w.store.requests.keep (·.key ≠ row.key) })
      (log : w'.log = .removed row (.expired clock.replayed) :: w.log) :
      Effect w w' (.handle call tokenId audience request clock)
  | dispatch {call tokenId : ℕ} {audience : Audience} {request : Request} {clock : Readings}
      {restart : Bool} {gone : Option (Row B)}
      (expired : ∀ row ∈ gone, Expired w.store tokenId request clock.replayed row)
      (admitted : Admitted w.store tokenId request clock restart w'.store gone)
      (log : w'.log = .dispatched tokenId request clock.charged restart ::
        ((gone.map (Entry.removed · (.expired clock.replayed))).toList ++ w.log)) :
      Effect w w' (.handle call tokenId audience request clock)
  | finish {call : ℕ} {body : B} {ok : Bool} {now : Instant} {dropped : List (Row B)}
      (rows : ∀ row ∈ w.store.requests.rows, (∃ r ∈ w'.store.requests.rows, r.key = row.key) ∨
        ∃ r ∈ dropped, r.key = row.key)
      (spent : ∀ row ∈ dropped, row.Spent)
      (tokens : w'.store.tokens = w.store.tokens)
      (log : w'.log = dropped.map (Entry.removed · .retention) ++ w.log) :
      Effect w w' (.finish call body ok now)

theorem World.finished_effect {w : World B} {call : ℕ} {body : B} {ok : Bool}
    {done : Store B × List (Row B)}
    (hrows : ∀ row ∈ w.store.requests.rows, (∃ r ∈ done.1.requests.rows, r.key = row.key) ∨
      ∃ r ∈ done.2, r.key = row.key) (hspent : ∀ row ∈ done.2, row.Spent)
    (htokens : done.1.tokens = w.store.tokens) :
    Effect w (w.finished call done) (.finish call body ok now) :=
  .finish hrows hspent htokens rfl

/-- **What an event can do.** -/
theorem step_effect {codec : Codec B} {w w' : World B} {event : Event B}
    (h : step codec w event = some w') : Effect w w' event := by
  cases event with
  | issue tokenId terms now =>
    simp only [step] at h
    cases hfound : w.store.tokens tokenId with
    | some token =>
      rw [hfound] at h
      cases h
      exact .quiet rfl rfl
    | none =>
      cases hissue : terms.issue now with
      | error e =>
        rw [hfound, hissue] at h
        cases h
        exact .quiet rfl rfl
      | ok token =>
        rw [hfound, hissue] at h
        cases h
        exact .issue hfound hissue rfl rfl rfl
  | revoke tokenId now =>
    simp only [step] at h
    split at h
    · cases h
      exact .quiet rfl rfl
    · next token hfound =>
      cases h
      exact .revoke hfound rfl rfl rfl
  | handle call tokenId audience request clock =>
    simp only [step] at h
    split at h
    · cases h
    cases h
    have hcases := w.store.beginRequest_cases tokenId audience request clock
    generalize w.store.beginRequest tokenId audience request clock = begun at hcases ⊢
    rcases hcases with
      ⟨hstore, hexpired, hanswer⟩ | ⟨row, hexpired, hrow, hstore, hanswer⟩ |
        ⟨restart, hanswer, hexpired, hadmitted⟩
    · unfold World.begun
      split
      · next restart hdispatch => exact absurd hdispatch (hanswer restart)
      · exact .quiet hstore (by rw [hexpired]; rfl)
    · unfold World.begun
      split
      · next restart hdispatch => exact absurd hdispatch (hanswer restart)
      · exact .expire hrow hstore (by rw [hexpired]; rfl)
    · unfold World.begun
      rw [hanswer]
      exact .dispatch hexpired hadmitted rfl
  | finish call body ok now =>
    rw [step, Option.map_eq_some_iff] at h
    obtain ⟨x, hx, rfl⟩ := h
    obtain ⟨hrows, hspent, htokens⟩ := w.store.complete_spec codec (x.1, x.2.requestId) body ok now
    exact World.finished_effect hrows hspent htokens
  | cancel call =>
    rw [step, Option.map_eq_some_iff] at h
    obtain ⟨x, hx, rfl⟩ := h
    exact .quiet rfl rfl
  | crash =>
    cases h
    exact .quiet rfl rfl

/-! ### A store for examples -/

/-- An instant of the first of January 2026, in microseconds after midnight. -/
def moment (micros : ℕ) : Instant :=
  ⟨(63902822400 * second + micros) % Calendar.limit, Nat.mod_lt _ (by decide)⟩

def emptyStore : Store ℕ := ⟨fun _ => none, ⟨[], nodup_nil⟩, moment 0⟩

def numberCodec : Codec ℕ := ⟨fun body => 100 < body, 0⟩

/-- A token for waking: a budget of one request a minute and a cooldown of 30 seconds. -/
def wakerTerms : Terms :=
  { role := .waker, audience := .lazymc, profileId := some startProfile, ttl := 3600 * second
    rateBudget := 1, rateWindow := 60 * second, wakeCooldown := 30 * second }

/-- A call of `begin` in which the clock stands still. -/
def still : Readings := ⟨t, t, t, t⟩

end Horizon.Capability
