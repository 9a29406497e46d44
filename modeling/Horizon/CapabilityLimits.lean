/-
**The limits of a capability token.**

Cooldown, rate window and expiry are compared in SQL as texts.  The text of an instant inside a
second sorts before the text of the second itself, so a budget check that reads the clock at a whole
second takes an instant of that second for an earlier one: a wake is admitted, or a rate window is
restarted, up to a second too early.  In the same way a token that expires at a whole second is
still accepted inside that second.  Where no budget check makes such a comparison, the limits hold
exactly.

Main results:

* `Capability.limits_hold` — the limits in every run of unambiguous events.
-/

import Horizon.Capability

namespace Horizon.Capability

open Capability.Entry
open Option hiding mem_map
open Instant
open Transition (run Along)
open List
open Function

variable {B : Type} {seconds : ℕ} {now : Instant} {a b : Instant}

/-! ### Texts and instants -/

/-- The first instant lies inside the second that the other one begins. -/
def Misread (a b : Instant) : Bool :=
  a.micros / second = b.micros / second && a.micros % second ≠ 0 && b.micros % second = 0

theorem Instant.le_of_text_le (h : a.text ≤ b.text) (hread : Misread a b = false) :
    a.micros ≤ b.micros := by
  rw [text, text, Calendar.iso_le_iso_iff a.inRange b.inRange] at h
  rcases h with h | h
  · exact h.1
  · simp [Misread, second, h] at hread

theorem Instant.lt_of_text_lt (h : a.text < b.text) (hread : Misread a b = false) :
    a.micros < b.micros := by
  refine lt_of_le_of_ne (le_of_text_le h.le hread) fun heq => ?_
  rw [text, text, heq] at h
  exact lt_irrefl _ h

theorem Instant.back_eq_some {t cutoff : Instant} (h : t.back seconds = some cutoff) :
    cutoff.micros + seconds * second = t.micros := by
  unfold back at h
  split at h <;> cases h
  exact Nat.sub_add_cancel ‹_›

/-- The comparisons of a budget check are not misread. -/
def Token.clear (token : Token) (kind : Kind) (now : Instant) : Bool :=
  !Misread now token.expiresAt &&
    if kind = .wake then
      token.lastWakeAt.all fun last =>
        (now.back token.wakeCooldownSeconds).all fun cutoff => !Misread last cutoff
    else (now.back token.rateWindowSeconds).all fun cutoff => !Misread token.windowStartedAt cutoff

/-- The event makes no budget check in which an instant is misread. -/
def unambiguous (w : World B) : Event B → Bool
  | .handle _ tokenId _ request clock =>
    (w.store.tokens tokenId).all fun token => token.clear request.kind clock.charged
  | _ => true

/-- The later instant is the given number of seconds after the earlier one. -/
def Apart (seconds : ℕ) (later earlier : Instant) : Prop :=
  earlier.micros + seconds * second ≤ later.micros

theorem apart_of_text_le {now earlier cutoff : Instant} (hback : now.back seconds = some cutoff)
    (htext : earlier.text ≤ cutoff.text) (hread : Misread earlier cutoff = false) :
    Apart seconds now earlier := by
  have hle := le_of_text_le htext hread
  have hcutoff := back_eq_some hback
  unfold Apart
  omega

theorem pairwise_apart_cons {times : List Instant} (htimes : times.Pairwise (Apart seconds))
    (hhead : ∀ t ∈ times.head?, Apart seconds now t) : (now :: times).Pairwise (Apart seconds) := by
  refine pairwise_cons.2 ⟨fun t ht => ?_, htimes⟩
  cases times with
  | nil => cases ht
  | cons latest times =>
    have hlatest : Apart seconds now latest := hhead latest rfl
    rcases mem_cons.1 ht with rfl | ht
    · exact hlatest
    · have hbefore : Apart seconds latest t := (pairwise_cons.1 htimes).1 t ht
      unfold Apart at hlatest hbefore ⊢
      omega

/-! ### The log of one token -/

def Entry.token : Entry B → Option ℕ
  | .issued tokenId _ => some tokenId
  | .revoked tokenId => some tokenId
  | .dispatched tokenId _ _ _ => some tokenId
  | .removed _ _ => none

def Entry.wakeOf (tokenId : ℕ) : Entry B → Option Instant
  | .dispatched i request time _ => if i = tokenId ∧ request.kind = .wake then some time else none
  | _ => none

def wakes (tokenId : ℕ) (log : List (Entry B)) : List Instant :=
  log.filterMap (wakeOf tokenId)

def Entry.startOf (tokenId : ℕ) : Entry B → Option Instant
  | .issued i time => if i = tokenId then some time else none
  | .dispatched i _ time restart => if i = tokenId ∧ restart then some time else none
  | _ => none

/-- The starts of a token's rate windows, latest first. -/
def starts (tokenId : ℕ) (log : List (Entry B)) : List Instant :=
  log.filterMap (startOf tokenId)

/-- The requests other than wakes since the latest start, the one that made the start included. -/
def sinceStart (tokenId : ℕ) : List (Entry B) → ℕ
  | [] => 0
  | .issued i _ :: log => if i = tokenId then 0 else sinceStart tokenId log
  | .dispatched i request _ restart :: log =>
    if i = tokenId ∧ request.kind ≠ .wake then
      if restart then 1 else sinceStart tokenId log + 1
    else sinceStart tokenId log
  | _ :: log => sinceStart tokenId log

/-- No request of the token was accepted after it was revoked. -/
def SilentAfterRevoke (tokenId : ℕ) (log : List (Entry B)) : Prop :=
  ∀ newer older, log = newer ++ .revoked tokenId :: older →
    ∀ request time restart, dispatched tokenId request time restart ∉ newer

/-- The log of a token agrees with its row, and keeps its limits. -/
structure Limited (log : List (Entry B)) (tokenId : ℕ) (token : Token) : Prop where
  wakes_apart : (wakes tokenId log).Pairwise (Apart token.wakeCooldownSeconds)
  lastWake : (wakes tokenId log).head? = token.lastWakeAt
  starts_apart : (starts tokenId log).Pairwise (Apart token.rateWindowSeconds)
  started : (starts tokenId log).head? = some token.windowStartedAt
  used : sinceStart tokenId log = token.usedCount
  budget : token.usedCount ≤ token.rateBudget
  budget_pos : 0 < token.rateBudget
  alive : ∀ request time restart, dispatched tokenId request time restart ∈ log →
    time.micros < token.expiresAt.micros
  revoked : revoked tokenId ∈ log → token.revokedAt.isSome = true
  silent : SilentAfterRevoke tokenId log

variable {tokenId : ℕ} {entry : Entry B}

theorem Entry.other (h : entry.token ≠ some tokenId) :
    entry.wakeOf tokenId = none ∧ entry.startOf tokenId = none ∧
      (∀ log, sinceStart tokenId (entry :: log) = sinceStart tokenId log) ∧
      entry ≠ .revoked tokenId ∧
      ∀ request time restart, entry ≠ .dispatched tokenId request time restart := by
  cases entry with
  | issued i time =>
    have hne : i ≠ tokenId := fun heq => h (congrArg some heq)
    refine ⟨rfl, if_neg hne, fun log => if_neg hne, nofun, nofun⟩
  | revoked i =>
    have hne : i ≠ tokenId := fun heq => h (congrArg some heq)
    refine ⟨rfl, rfl, fun log => rfl, fun heq => hne (revoked.inj heq), nofun⟩
  | dispatched i request time restart =>
    have hne : i ≠ tokenId := fun heq => h (congrArg some heq)
    refine ⟨if_neg fun hi => hne hi.1, if_neg fun hi => hne hi.1,
      fun log => if_neg fun hi => hne hi.1, nofun,
      fun _ _ _ heq => hne (dispatched.inj heq).1⟩
  | removed row cause => exact ⟨rfl, rfl, fun log => rfl, nofun, nofun⟩

variable {log : List (Entry B)}

theorem SilentAfterRevoke.cons (h : SilentAfterRevoke tokenId log)
    (hentry : ∀ request time restart, entry = .dispatched tokenId request time restart →
      .revoked tokenId ∉ log) : SilentAfterRevoke tokenId (entry :: log) := by
  intro newer older hlog request time restart hmem
  cases newer with
  | nil => cases hmem
  | cons latest newer =>
    obtain ⟨rfl, hrest⟩ := cons.inj hlog
    rcases mem_cons.1 hmem with heq | hmem
    · refine hentry request time restart heq.symm ?_
      rw [hrest]
      exact mem_append_right newer (.head _)
    · exact h newer older hrest request time restart hmem

variable {token : Token} {w w' : World B} (request : Request)

theorem Limited.cons_other (h : Limited log tokenId token) (hother : entry.token ≠ some tokenId) :
    Limited (entry :: log) tokenId token := by
  obtain ⟨hwake, hstart, hsince, hrevoked, hdispatched⟩ := other hother
  have hwakes : wakes tokenId (entry :: log) = wakes tokenId log := filterMap_cons_none hwake
  have hstarts : starts tokenId (entry :: log) = starts tokenId log := filterMap_cons_none hstart
  constructor
  · rw [hwakes]
    exact h.wakes_apart
  · rw [hwakes]
    exact h.lastWake
  · rw [hstarts]
    exact h.starts_apart
  · rw [hstarts]
    exact h.started
  · rw [hsince]
    exact h.used
  · exact h.budget
  · exact h.budget_pos
  · intro request time restart hmem
    rcases mem_cons.1 hmem with heq | hmem
    · exact absurd heq.symm (hdispatched request time restart)
    · exact h.alive request time restart hmem
  · intro hmem
    exact h.revoked ((mem_cons.1 hmem).resolve_left hrevoked.symm)
  · exact h.silent.cons fun request time restart heq =>
      absurd heq (hdispatched request time restart)

theorem Limited.append_removed (h : Limited log tokenId token) (rows : List (Row B))
    (cause : Cause) : Limited (rows.map (removed · cause) ++ log) tokenId token := by
  induction rows with
  | nil => exact h
  | cons row rows ih => exact ih.cons_other nofun

theorem Limited.issued {terms : Terms} (hissue : terms.issue now = .ok token)
    (hnew : ∀ entry ∈ log, entry.token ≠ some tokenId) :
    Limited (.issued tokenId now :: log) tokenId token := by
  have hwakes : wakes tokenId log = [] :=
    filterMap_eq_nil_iff.2 fun entry hentry => (other (hnew entry hentry)).1
  have hstarts : starts tokenId log = [] :=
    filterMap_eq_nil_iff.2 fun entry hentry => (other (hnew entry hentry)).2.1
  have hrow : token.windowStartedAt = now ∧ token.usedCount = 0 ∧ token.lastWakeAt = none ∧
      0 < token.rateBudget := by
    unfold Terms.issue at hissue
    split_ifs at hissue with _ _ hbudget
    split at hissue <;> cases hissue
    exact ⟨rfl, rfl, rfl, pos_of_ne_zero fun h => hbudget (.inl h)⟩
  have hwakes' : wakes tokenId (.issued tokenId now :: log) = [] := hwakes
  have hstarts' : starts tokenId (.issued tokenId now :: log) = [now] := by
    have hstart : startOf tokenId (.issued tokenId now : Entry B) = some now := if_pos rfl
    rw [starts, filterMap_cons_some hstart]
    exact congrArg _ hstarts
  have hnone : ∀ entry ∈ (.issued tokenId now :: log : List (Entry B)),
      entry ≠ .revoked tokenId ∧
        ∀ request time restart, entry ≠ .dispatched tokenId request time restart := by
    intro entry hentry
    rcases mem_cons.1 hentry with rfl | hentry
    · exact ⟨nofun, nofun⟩
    · exact (other (hnew entry hentry)).2.2.2
  constructor
  · rw [hwakes']
    exact List.Pairwise.nil
  · rw [hwakes', hrow.2.2.1]
    rfl
  · rw [hstarts']
    exact pairwise_singleton _ _
  · rw [hstarts', hrow.1]
    rfl
  · rw [hrow.2.1]
    exact if_pos rfl
  · rw [hrow.2.1]
    exact Nat.zero_le _
  · exact hrow.2.2.2
  · exact fun request time restart hmem => absurd rfl ((hnone _ hmem).2 request time restart)
  · exact fun hmem => absurd rfl (hnone _ hmem).1
  · intro newer older hlog request time restart hmem
    exact (hnone (.dispatched tokenId request time restart)
      (by rw [hlog]; exact mem_append_left _ hmem)).2 request time restart rfl

theorem Limited.revoke (h : Limited log tokenId token) (now : Instant) :
    Limited (.revoked tokenId :: log) tokenId
      { token with revokedAt := token.revokedAt.or (some now) } where
  wakes_apart := h.wakes_apart
  lastWake := h.lastWake
  starts_apart := h.starts_apart
  started := h.started
  used := h.used
  budget := h.budget
  budget_pos := h.budget_pos
  alive request time restart hmem :=
    h.alive request time restart ((mem_cons.1 hmem).resolve_left nofun)
  revoked _ := by cases token.revokedAt <;> rfl
  silent := h.silent.cons nofun

theorem wakes_dispatched (now : Instant) (restart : Bool) :
    wakes tokenId (.dispatched tokenId request now restart :: log) =
      if request.kind = .wake then now :: wakes tokenId log else wakes tokenId log := by
  by_cases hkind : request.kind = .wake <;> simp [wakes, wakeOf, hkind]

theorem starts_dispatched (now : Instant) (restart : Bool) :
    starts tokenId (.dispatched tokenId request now restart :: log) =
      if restart then now :: starts tokenId log else starts tokenId log := by
  cases restart <;> simp [starts, startOf]

theorem Limited.dispatch {token' : Token} {request : Request} {restart : Bool}
    (h : Limited log tokenId token)
    (hbudget : token.consumeBudget request.kind now = .ok (token', restart))
    (hclear : token.clear request.kind now = true) :
    Limited (.dispatched tokenId request now restart :: log) tokenId token' := by
  obtain ⟨husable, hcases⟩ := Token.consumeBudget_cases hbudget
  rw [Token.usable, Bool.and_eq_true, decide_eq_true_eq, isNone_iff_eq_none] at husable
  rw [Token.clear, Bool.and_eq_true, Bool.not_eq_true'] at hclear
  obtain ⟨hlive, hclear⟩ := hclear
  have hexpiry : now.micros < token.expiresAt.micros := lt_of_text_lt husable.2 hlive
  have hunrevoked : .revoked tokenId ∉ log := by
    intro hmem
    have hsome := h.revoked hmem
    rw [husable.1] at hsome
    cases hsome
  have hsilent : SilentAfterRevoke tokenId (.dispatched tokenId request now restart :: log) :=
    h.silent.cons fun _ _ _ _ => hunrevoked
  have hrevoked : .revoked tokenId ∈
      (.dispatched tokenId request now restart :: log : List (Entry B)) →
      token'.revokedAt.isSome = true := fun hmem =>
    absurd ((mem_cons.1 hmem).resolve_left nofun) hunrevoked
  have halive : ∀ q time r, .dispatched tokenId q time r ∈
      (.dispatched tokenId request now restart :: log : List (Entry B)) →
      time.micros < token.expiresAt.micros := by
    intro q time r hmem
    rcases mem_cons.1 hmem with heq | hmem
    · cases heq
      exact hexpiry
    · exact h.alive q time r hmem
  have hwakes := @wakes_dispatched _ tokenId log request now restart
  have hstarts := @starts_dispatched _ tokenId log request now restart
  rcases hcases with ⟨hkind, rfl, rfl, cutoff, hback, hcooled⟩ |
    ⟨hkind, rfl, rfl, cutoff, hback, hrestarts⟩ | ⟨hkind, rfl, rfl, hcount⟩
  · -- A wake: the latest one before it is at least the cooldown away.
    rw [if_pos hkind] at hclear hwakes
    refine ⟨?_, by rw [hwakes]; rfl, hstarts ▸ h.starts_apart, hstarts ▸ h.started, ?_, h.budget,
      h.budget_pos, halive, hrevoked, hsilent⟩
    · rw [hwakes]
      refine pairwise_apart_cons h.wakes_apart fun last hlast => ?_
      rw [h.lastWake] at hlast
      rw [Token.cooled, hlast, all_some, decide_eq_true_eq] at hcooled
      rw [hlast, all_some, hback, all_some, Bool.not_eq_true'] at hclear
      exact apart_of_text_le hback hcooled hclear
    · exact (if_neg fun hi => hi.2 hkind).trans h.used
  · -- A restart: the window that ends has lasted long enough.
    rw [if_neg hkind] at hclear hwakes
    rw [hback, all_some, Bool.not_eq_true'] at hclear
    refine ⟨hwakes ▸ h.wakes_apart, hwakes ▸ h.lastWake, ?_, by rw [hstarts]; rfl,
      if_pos ⟨rfl, hkind⟩, h.budget_pos, h.budget_pos, halive, hrevoked, hsilent⟩
    rw [hstarts]
    refine pairwise_apart_cons h.starts_apart fun last hlast => ?_
    rw [h.started] at hlast
    cases hlast
    exact apart_of_text_le hback (of_decide_eq_true hrestarts) hclear
  · -- One more request in the window.
    rw [if_neg hkind] at hwakes
    refine ⟨hwakes ▸ h.wakes_apart, hwakes ▸ h.lastWake, hstarts ▸ h.starts_apart,
      hstarts ▸ h.started, ?_, hcount, h.budget_pos, halive, hrevoked, hsilent⟩
    rw [sinceStart, if_pos ⟨rfl, hkind⟩, h.used]
    rfl

/-! ### Runs -/

/-- Every issued token is limited, and the log has nothing of the others. -/
structure LimitsHold (w : World B) : Prop where
  unknown : ∀ tokenId, w.store.tokens tokenId = none → ∀ entry ∈ w.log, entry.token ≠ some tokenId
  known : ∀ tokenId token, w.store.tokens tokenId = some token → Limited w.log tokenId token

theorem LimitsHold.start {store : Store B} (hnew : ∀ tokenId, store.tokens tokenId = none) :
    LimitsHold (.start store) := by
  refine ⟨nofun, fun tokenId token h => ?_⟩
  rw [World.start, hnew tokenId] at h
  cases h

theorem LimitsHold.remove (h : LimitsHold w) (rows : List (Row B)) (cause : Cause)
    (htokens : w'.store.tokens = w.store.tokens)
    (hlog : w'.log = rows.map (.removed · cause) ++ w.log) : LimitsHold w' := by
  constructor
  · intro tokenId hnone entry hentry
    rw [htokens] at hnone
    rw [hlog, mem_append, mem_map] at hentry
    rcases hentry with ⟨row, -, rfl⟩ | hentry
    · exact nofun
    · exact h.unknown tokenId hnone entry hentry
  · intro tokenId token htoken
    rw [htokens] at htoken
    rw [hlog]
    exact (h.known tokenId token htoken).append_removed rows cause

theorem LimitsHold.update (h : LimitsHold w) (hentry : entry.token = some tokenId)
    (htokens : w'.store.tokens = update w.store.tokens tokenId (some token))
    (hlog : w'.log = entry :: w.log) (hlimited : Limited w'.log tokenId token) : LimitsHold w' := by
  constructor
  · intro i hnone e he
    rw [htokens] at hnone
    have hne : i ≠ tokenId := by
      rintro rfl
      rw [update_self] at hnone
      cases hnone
    rw [update_of_ne hne] at hnone
    rw [hlog] at he
    rcases mem_cons.1 he with rfl | he
    · rw [hentry]
      exact fun heq => hne (some.inj heq).symm
    · exact h.unknown i hnone e he
  · intro i t ht
    rw [htokens] at ht
    by_cases hi : i = tokenId
    · subst hi
      rw [update_self] at ht
      cases ht
      exact hlimited
    · rw [update_of_ne hi] at ht
      rw [hlog]
      refine (h.known i t ht).cons_other ?_
      rw [hentry]
      exact fun heq => hi (some.inj heq).symm

/-- **Every unambiguous event keeps the limits.** -/
theorem LimitsHold.step {codec : Codec B} {event : Event B} (h : LimitsHold w)
    (hstep : Capability.step codec w event = some w') (hclear : unambiguous w event = true) :
    LimitsHold w' := by
  cases step_effect hstep with
  | quiet hstore hlog => exact h.remove [] .retention (by rw [hstore]) hlog
  | issue hfresh hissue htokens _ hlog =>
    refine h.update rfl htokens hlog ?_
    rw [hlog]
    exact .issued hissue (h.unknown _ hfresh)
  | revoke hfound htokens _ hlog =>
    refine h.update rfl htokens hlog ?_
    rw [hlog]
    exact (h.known _ _ hfound).revoke _
  | @expire _ _ _ _ clock row _ hstore hlog =>
    exact h.remove [row] (.expired clock.replayed) (by rw [hstore]) hlog
  | @dispatch _ tokenId _ request clock restart gone _ hadmitted hlog =>
    obtain ⟨token, token', htoken, hbudget, htokens⟩ := hadmitted.tokens
    -- The expired row is removed first, in a world of its own.
    have hgone : LimitsHold { w with
        log := (gone.map (.removed · (.expired clock.replayed))).toList ++ w.log } :=
      h.remove gone.toList (.expired clock.replayed) rfl (by cases gone <;> rfl)
    have hclear : token.clear request.kind clock.charged = true := by
      simpa [unambiguous, htoken] using hclear
    refine hgone.update rfl htokens hlog ?_
    rw [hlog]
    exact (hgone.known tokenId token htoken).dispatch hbudget hclear
  | finish _ _ htokens hlog => exact h.remove _ .retention htokens hlog

/-- **Capability limits hold exactly** in every run whose budget checks misread no instant: accepted
wakes of a token are a cooldown apart, a rate window holds at most the budget, windows are restarted
only when they are over, and nothing is accepted at the expiry or later, or after revocation. -/
theorem limits_hold (codec : Codec B) (store : Store B)
    (hnew : ∀ tokenId, store.tokens tokenId = none) (events : List (Event B)) (w : World B)
    (hclear : Along (step codec) (fun w event _ => unambiguous w event = true)
      (World.start store) events)
    (hrun : run (step codec) (World.start store) events = some w) :
    ∀ tokenId token, w.store.tokens tokenId = some token →
      (wakes tokenId w.log).Pairwise (Apart token.wakeCooldownSeconds) ∧
      sinceStart tokenId w.log ≤ token.rateBudget ∧
      (starts tokenId w.log).Pairwise (Apart token.rateWindowSeconds) ∧
      (∀ request time restart, dispatched tokenId request time restart ∈ w.log →
        time.micros < token.expiresAt.micros) ∧
      SilentAfterRevoke tokenId w.log := by
  intro tokenId token htoken
  have hlimits : LimitsHold w := Transition.along_invariant
    (fun _ _ _ h hstep hc => LimitsHold.step h hstep hc) (LimitsHold.start hnew) hclear hrun
  have hlimited := hlimits.known tokenId token htoken
  exact ⟨hlimited.wakes_apart, hlimited.used ▸ hlimited.budget, hlimited.starts_apart,
    hlimited.alive, hlimited.silent⟩

/-- Two wakes, half a minute and a bit apart. -/
def spacedWakes : List (Event ℕ) :=
  [.issue 0 wakerTerms (moment 0),
    .handle 0 0 .lazymc ⟨1, .wake, .sixHours⟩ (still (moment 500000)),
    .handle 1 0 .lazymc ⟨2, .wake, .sixHours⟩ (still (moment (31 * second)))]

theorem spacedWakes_limited :
    ∃ w, run (step numberCodec) (World.start emptyStore) spacedWakes = some w ∧
      wakes 0 w.log = [moment (31 * second), moment 500000] ∧
      (wakes 0 w.log).Pairwise (Apart 30) := by
  have hlog : (run (step numberCodec) (World.start emptyStore) spacedWakes).map
      (fun w => (wakes 0 w.log, (w.store.tokens 0).map Token.wakeCooldownSeconds)) =
        some ([moment (31 * second), moment 500000], some 30) := by
    decide +kernel
  obtain ⟨w, hrun, hw⟩ := map_eq_some_iff.1 hlog
  obtain ⟨hwakes, hcooldown⟩ := Prod.mk.inj hw
  obtain ⟨token, htoken, hseconds⟩ := map_eq_some_iff.1 hcooldown
  have hapart := (limits_hold numberCodec emptyStore (fun _ => rfl) spacedWakes w
    (by decide +kernel) hrun 0 token htoken).1
  rw [hseconds] at hapart
  exact ⟨w, hrun, hwakes, hapart⟩

/-- A wake inside a second and one at the whole second half a minute later. -/
def hastyWakes : List (Event ℕ) :=
  [.issue 0 wakerTerms (moment 0),
    .handle 0 0 .lazymc ⟨1, .wake, .sixHours⟩ (still (moment 500000)),
    .handle 1 0 .lazymc ⟨2, .wake, .sixHours⟩ (still (moment (30 * second)))]

/-- The second wake is admitted 29.5 seconds after the first. -/
theorem whole_second_shortens_cooldown :
    ∃ w token, run (step numberCodec) (World.start emptyStore) hastyWakes = some w ∧
      w.store.tokens 0 = some token ∧ token.wakeCooldownSeconds = 30 ∧
      wakes 0 w.log = [moment (30 * second), moment 500000] ∧
      ¬ (wakes 0 w.log).Pairwise (Apart token.wakeCooldownSeconds) := by
  have hlog : (run (step numberCodec) (World.start emptyStore) hastyWakes).map
      (fun w => (wakes 0 w.log, (w.store.tokens 0).map Token.wakeCooldownSeconds)) =
        some ([moment (30 * second), moment 500000], some 30) := by
    decide +kernel
  obtain ⟨w, hrun, hw⟩ := map_eq_some_iff.1 hlog
  obtain ⟨hwakes, hcooldown⟩ := Prod.mk.inj hw
  obtain ⟨token, htoken, hseconds⟩ := map_eq_some_iff.1 hcooldown
  refine ⟨w, token, hrun, htoken, hseconds, hwakes, ?_⟩
  rw [hwakes, hseconds, pairwise_pair]
  unfold Apart
  decide +kernel

end Horizon.Capability
