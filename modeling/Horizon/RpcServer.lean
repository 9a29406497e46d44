/-
**The socket server: what a client is sent.**

`UnixRpcServer.handle_client` lets the controller execute a request, projects a successful response
to the watch hub and then writes the response.  An exception on the way, from the controller or from
the hub, replaces the response by an internal error.  Any number of clients are served at once and
share the hub.

Each client is a small program.  Its publication is two steps: `_publish_response` chooses the
generation and `publish` makes its first check; then `publish`, holding the hub's lock, checks again
and appends.  Between any two steps of one client every other client may make steps of its own.

Main results:

* `answer_delivered_iff` — in every run, a client's first frame is the controller's success
  exactly when the client's own publication was timely;
* `readiness_lost` — a readiness result published after a status snapshot is lost.
-/

import Horizon.Transition
import Horizon.Protocol
import Horizon.WatchHub

namespace Horizon

open Transition (run Along)
open Function

/-! ### Results and frames -/

/-- The member `generation` of a payload: absent, a value that `int` converts, or one it does
not. -/
inductive GenerationMember
  | absent
  | value (g : ℤ)
  | malformed
  deriving DecidableEq

/-- What `_publish_response` sees of a result: its JSON payload, if it is a model or a
dictionary. -/
inductive Projection (P : Type)
  | none
  | payload (data : P) (generation : GenerationMember) (isStatus : Bool)

/-- How the server reads results and measures encoded responses. -/
structure ServerCodec (R P : Type) where
  project : R → Projection P
  frameBytes : RpcResponse R → ℕ

/-- `MAX_RESPONSE_BYTES`. -/
def maxResponseBytes : ℕ := 1024 * 1024

section Server

variable {R P : Type} (codec : ServerCodec R P)

/-- The frame `_write` puts on the socket. -/
def frame (requestId : ℕ) (r : RpcResponse R) : RpcResponse R :=
  if maxResponseBytes < codec.frameBytes r then
    failure requestId .internalError "response exceeds framing budget"
  else r

/-- How `writer.drain` ends: normally, with a lost peer, or otherwise (a timeout). -/
inductive Drain
  | done
  | disconnected
  | failed
  deriving DecidableEq

/-- The response of the `except Exception` branch. -/
def incidentFailure (requestId : ℕ) (incident : String) : RpcResponse R :=
  failure requestId .internalError "internal controller error" false (some incident)

/-! ### Clients -/

/-- Where `handle_client` is, with the frames written so far.  `answer` is what
`controller.execute` returned. -/
inductive ServerPlace (R P : Type)
  | idle
  | executing (requestId : ℕ) (kind : String)
  | responded (requestId : ℕ) (kind : String) (answer : RpcResponse R)
  /-- It has chosen a generation, passed the first check of `publish` and waits for the lock. -/
  | publishing (requestId : ℕ) (kind : String) (answer : RpcResponse R) (data : P)
      (generation : ℤ) (full : Bool)
  | writing (requestId : ℕ) (answer : RpcResponse R)
  /-- It is in the `except` branch. -/
  | failing (requestId : ℕ) (answer : Option (RpcResponse R)) (frames : List (RpcResponse R))
  | closed (answer : Option (RpcResponse R)) (frames : List (RpcResponse R))

structure ServerWorld (R P : Type) where
  hub : WatchHub P
  places : ℕ → ServerPlace R P

inductive ServerEvent (R : Type)
  | request (c : ℕ) (requestId : ℕ) (kind : String)
  /-- `controller.execute` returns a response, or raises. -/
  | execute (c : ℕ) (answer : Option (RpcResponse R))
  | prepare (c : ℕ)
  | publish (c : ℕ)
  | write (c : ℕ) (drain : Drain)
  | report (c : ℕ) (incident : String)
  | subscribe (cursor : WatchCursor)
  | unsubscribe (ident : ℕ)
  | take (ident : ℕ)

namespace ServerWorld

variable (w : ServerWorld R P)

def setPlace (c : ℕ) (p : ServerPlace R P) : ServerWorld R P :=
  { w with places := update w.places c p }

end ServerWorld

/-- The generation `_publish_response` publishes at: the payload's own, or the hub's. -/
def chosenGeneration (hubGeneration : ℤ) : GenerationMember → Option ℤ
  | .absent => some hubGeneration
  | .value g => some g
  | .malformed => none

/-- `_publish_response` up to the first check of `publish`. -/
def prepareStep (hub : WatchHub P) (requestId : ℕ) (kind : String) (answer : RpcResponse R) :
    ServerPlace R P :=
  match answer with
  | .failure _ _ => .writing requestId answer
  | .success _ result =>
    match codec.project result with
    | .none => .writing requestId answer
    | .payload data generation isStatus =>
      match chosenGeneration hub.generation generation with
      | none => .failing requestId (some answer) []
      | some g =>
        if g < hub.generation then .failing requestId (some answer) []
        else .publishing requestId (if isStatus then "status" else kind) answer data g isStatus

/-- One event.  The kind of a request is one of the protocol's, all of which are valid. -/
def serverStep (w : ServerWorld R P) : ServerEvent R → Option (ServerWorld R P)
  | .request c requestId kind =>
    match w.places c with
    | .idle => if validKind kind then some (w.setPlace c (.executing requestId kind)) else none
    | _ => none
  | .execute c answer =>
    match w.places c with
    | .executing requestId kind =>
      some (w.setPlace c (match answer with
        | some r => .responded requestId kind r
        | none => .failing requestId none []))
    | _ => none
  | .prepare c =>
    match w.places c with
    | .responded requestId kind answer =>
      some (w.setPlace c (prepareStep codec w.hub requestId kind answer))
    | _ => none
  | .publish c =>
    match w.places c with
    | .publishing requestId kind answer data generation full =>
      let out := w.hub.publish kind data generation full
      some ({ w with hub := out.2 }.setPlace c (match out.1 with
        | .ok _ => .writing requestId answer
        | .error _ => .failing requestId (some answer) []))
    | _ => none
  | .write c drain =>
    match w.places c with
    | .writing requestId answer =>
      some (w.setPlace c (match drain with
        | .failed => .failing requestId (some answer) [frame codec requestId answer]
        | _ => .closed (some answer) [frame codec requestId answer]))
    | _ => none
  | .report c incident =>
    match w.places c with
    | .failing requestId answer frames =>
      some (w.setPlace c (.closed answer
        (frames ++ [frame codec requestId (incidentFailure requestId incident)])))
    | _ => none
  | .subscribe cursor => some { w with hub := (w.hub.subscribe cursor).2 }
  | .unsubscribe ident => some { w with hub := w.hub.unsubscribe ident }
  | .take ident => some { w with hub := (w.hub.take ident).2 }

/-! ### Timely publications -/

/-- The generation member of a payload can be published at hub generation `h`. -/
def GenerationMember.Timely (h : ℤ) : GenerationMember → Prop
  | .absent => True
  | .value g => h ≤ g
  | .malformed => False

/-- If the event is a publication step of client `c`, then what it publishes is not below the hub's
generation. -/
def PublishesTimely (c : ℕ) (w : ServerWorld R P) : ServerEvent R → Prop
  | .prepare d => d = c → ∀ requestId kind id result data generation isStatus,
      w.places c = .responded requestId kind (.success id result) →
      codec.project result = .payload data generation isStatus → generation.Timely w.hub.generation
  | .publish d => d = c → ∀ requestId kind answer data generation full,
      w.places c = .publishing requestId kind answer data generation full →
      w.hub.generation ≤ generation
  | _ => True

/-- The kind that is published at a place is valid. -/
def ServerPlace.KindOk : ServerPlace R P → Prop
  | executing _ kind => validKind kind = true
  | responded _ kind _ => validKind kind = true
  | publishing _ kind _ _ _ _ => validKind kind = true
  | _ => True

/-- The hub's generation is not negative and the kinds are valid. -/
structure ServerWorld.Sane (w : ServerWorld R P) : Prop where
  generation : 0 ≤ w.hub.generation
  kinds : ∀ c, (w.places c).KindOk

/-- The answer of the client stands first on its socket, or will. -/
def ServerPlace.Delivered : ServerPlace R P → Prop
  | failing _ (some a) frames => ∃ id, frames.head? = some (frame codec id a)
  | closed (some a) frames => ∃ id, frames.head? = some (frame codec id a)
  | _ => True

/-- The answer of the client is replaced by the report of an incident, or will be. -/
def ServerPlace.Lost : ServerPlace R P → Prop
  | failing _ (some _) frames => frames = []
  | closed (some _) frames =>
    ∃ id incident, frames.head? = some (frame codec id (incidentFailure id incident))
  | _ => False

variable {codec} {w w' : ServerWorld R P} {ev : ServerEvent R} {c : ℕ} {p : ServerPlace R P}

section Prepare

variable {hub : WatchHub P} {requestId : ℕ} {kind : String}

theorem prepareStep_timely (requestId : ℕ) (kind : String) {answer : RpcResponse R}
    (h : ∀ id result data generation isStatus, answer = .success id result →
      codec.project result = .payload data generation isStatus →
      generation.Timely hub.generation) :
    prepareStep codec hub requestId kind answer = .writing requestId answer ∨
    ∃ data g full kind', (kind' = kind ∨ kind' = "status") ∧
      prepareStep codec hub requestId kind answer =
        .publishing requestId kind' answer data g full := by
  unfold prepareStep
  split
  · exact .inl rfl
  · split
    · exact .inl rfl
    · rename_i id result _ data generation isStatus hproj
      have ht := h id result data generation isStatus rfl hproj
      refine .inr ⟨data, ?_⟩
      cases generation with
      | absent =>
        refine ⟨hub.generation, isStatus, _, ?_, by simp [chosenGeneration]; rfl⟩
        split
        · exact .inr rfl
        · exact .inl rfl
      | value g =>
        have hle : ¬ g < hub.generation := not_lt.2 ht
        refine ⟨g, isStatus, _, ?_, by simp [chosenGeneration, hle]; rfl⟩
        split
        · exact .inr rfl
        · exact .inl rfl
      | malformed => exact ht.elim

theorem prepareStep_stale {id : ℕ} {result : R} {data : P} {generation : GenerationMember}
    {isStatus : Bool} (hproj : codec.project result = .payload data generation isStatus)
    (h : ¬ generation.Timely hub.generation) :
    prepareStep codec hub requestId kind (.success id result) =
      .failing requestId (some (.success id result)) [] := by
  simp only [prepareStep, hproj]
  cases generation with
  | absent => exact absurd trivial h
  | value g =>
    have hlt : g < hub.generation := not_le.1 h
    simp [chosenGeneration, hlt]
  | malformed => rfl

end Prepare

/-! ### What a step can do -/

variable (codec) in
inductive ServerMove (w : ServerWorld R P) : ServerEvent R → ServerWorld R P → Prop
  | request {c id : ℕ} {kind : String} (hc : w.places c = .idle) (hk : validKind kind = true) :
      ServerMove w (.request c id kind) (w.setPlace c (.executing id kind))
  | execute {c id : ℕ} {kind : String} (r : RpcResponse R) (hc : w.places c = .executing id kind) :
      ServerMove w (.execute c (some r)) (w.setPlace c (.responded id kind r))
  | raised {c id : ℕ} {kind : String} (hc : w.places c = .executing id kind) :
      ServerMove w (.execute c none) (w.setPlace c (.failing id none []))
  | prepare {c id : ℕ} {kind : String} {a : RpcResponse R}
      (hc : w.places c = .responded id kind a) :
      ServerMove w (.prepare c) (w.setPlace c (prepareStep codec w.hub id kind a))
  | accepted {c id : ℕ} {kind : String} {a : RpcResponse R} {data : P} {g : ℤ} {full : Bool}
      (hc : w.places c = .publishing id kind a data g full)
      (hok : ∃ item, (w.hub.publish kind data g full).1 = .ok item) :
      ServerMove w (.publish c)
        ({ w with hub := (w.hub.publish kind data g full).2 }.setPlace c (.writing id a))
  | refused {c id : ℕ} {kind : String} {a : RpcResponse R} {data : P} {g : ℤ} {full : Bool}
      (hc : w.places c = .publishing id kind a data g full)
      (hno : ¬ ∃ item, (w.hub.publish kind data g full).1 = .ok item) :
      ServerMove w (.publish c)
        ({ w with hub := (w.hub.publish kind data g full).2 }.setPlace c (.failing id (some a) []))
  | written {c id : ℕ} {a : RpcResponse R} (drain : Drain) (hc : w.places c = .writing id a) :
      ServerMove w (.write c drain) (w.setPlace c (.closed (some a) [frame codec id a]))
  | undrained {c id : ℕ} {a : RpcResponse R} (drain : Drain) (hc : w.places c = .writing id a) :
      ServerMove w (.write c drain) (w.setPlace c (.failing id (some a) [frame codec id a]))
  | report {c id : ℕ} {a : Option (RpcResponse R)} {frames : List (RpcResponse R)}
      (incident : String) (hc : w.places c = .failing id a frames) :
      ServerMove w (.report c incident)
        (w.setPlace c (.closed a (frames ++ [frame codec id (incidentFailure id incident)])))
  | subscribe (cursor : WatchCursor) :
      ServerMove w (.subscribe cursor) { w with hub := (w.hub.subscribe cursor).2 }
  | unsubscribe (ident : ℕ) :
      ServerMove w (.unsubscribe ident) { w with hub := w.hub.unsubscribe ident }
  | take (ident : ℕ) : ServerMove w (.take ident) { w with hub := (w.hub.take ident).2 }

/-- **Every step is one of the moves.** -/
theorem serverStep_move (h : serverStep codec w ev = some w') : ServerMove codec w ev w' := by
  cases ev with
  | request c id kind =>
    simp only [serverStep] at h
    split at h
    · rename_i hc
      split at h <;> cases h
      exact .request hc ‹_›
    · cases h
  | execute c answer =>
    simp only [serverStep] at h
    split at h <;> cases h
    cases answer with
    | none => exact .raised ‹_›
    | some r => exact .execute r ‹_›
  | prepare c =>
    simp only [serverStep] at h
    split at h <;> cases h
    exact .prepare ‹_›
  | publish c =>
    simp only [serverStep] at h
    split at h <;> cases h
    rename_i id kind a data g full hc
    cases hp : (w.hub.publish kind data g full).1 with
    | ok item => exact .accepted hc ⟨item, hp⟩
    | error e =>
      refine .refused hc ?_
      rintro ⟨item, hitem⟩
      rw [hp] at hitem
      cases hitem
  | write c drain =>
    simp only [serverStep] at h
    split at h <;> cases h
    cases drain with
    | done => exact .written .done ‹_›
    | disconnected => exact .written .disconnected ‹_›
    | failed => exact .undrained .failed ‹_›
  | report c incident =>
    simp only [serverStep] at h
    split at h <;> cases h
    exact .report incident ‹_›
  | subscribe cursor => cases h; exact .subscribe cursor
  | unsubscribe ident => cases h; exact .unsubscribe ident
  | take ident => cases h; exact .take ident

theorem ServerWorld.Sane.setPlace (h : w.Sane) (hp : p.KindOk) : (w.setPlace c p).Sane := by
  refine ⟨h.generation, fun d => ?_⟩
  by_cases hdc : d = c
  · subst hdc
    show (update w.places d p d).KindOk
    rwa [update_self]
  · show (update w.places c p d).KindOk
    rw [update_of_ne hdc]
    exact h.kinds d

theorem ServerWorld.Sane.setHub {hub : WatchHub P} (h : w.Sane)
    (hg : w.hub.generation ≤ hub.generation) : ServerWorld.Sane { w with hub := hub } :=
  ⟨le_trans h.generation hg, h.kinds⟩

theorem prepareStep_kindOk {hub : WatchHub P} {id : ℕ} {kind : String} {a : RpcResponse R}
    (hk : validKind kind = true) : (prepareStep codec hub id kind a).KindOk := by
  unfold prepareStep
  split
  · trivial
  · split
    · trivial
    · split
      · trivial
      · split
        · trivial
        · show validKind _ = true
          split
          · decide
          · exact hk

theorem serverStep_sane (h : w.Sane) (hstep : serverStep codec w ev = some w') : w'.Sane := by
  have hpub : ∀ kind data g full,
      w.hub.generation ≤ (w.hub.publish kind data g full).2.generation := by
    intro kind data g full
    rw [WatchHub.publish_generation]
    exact le_max_left _ _
  cases serverStep_move hstep with
  | request hc hk => exact h.setPlace hk
  | @execute c id kind r hc =>
    have hk := h.kinds c
    rw [hc] at hk
    exact h.setPlace hk
  | @prepare c id kind a hc =>
    have hk := h.kinds c
    rw [hc] at hk
    exact h.setPlace (prepareStep_kindOk hk)
  | accepted | refused => exact (h.setHub (hpub _ _ _ _)).setPlace trivial
  | raised | written | undrained | report => exact h.setPlace trivial
  | subscribe | unsubscribe => exact h.setHub le_rfl
  | take ident => exact h.setHub (WatchHub.take_generation _ _).ge

/-! ### What becomes of an answer -/

theorem setPlace_places {c d : ℕ} {Q : ServerPlace R P → Prop} (hself : d = c → Q p)
    (hother : d ≠ c → Q (w.places d)) : Q ((w.setPlace c p).places d) := by
  show Q (update w.places c p d)
  by_cases hdc : d = c
  · subst hdc
    rw [update_self]
    exact hself rfl
  · rw [update_of_ne hdc]
    exact hother hdc

theorem serverStep_delivered (hs : w.Sane) (h : (w.places c).Delivered codec)
    (hstep : serverStep codec w ev = some w') (ht : PublishesTimely codec c w ev) :
    (w'.places c).Delivered codec := by
  cases serverStep_move hstep with
  | request | execute | raised | accepted =>
    exact setPlace_places (fun _ => trivial) fun _ => h
  | @prepare d id kind a hc =>
    refine setPlace_places (fun hcd => ?_) fun _ => h
    subst hcd
    have hgen : ∀ id' result data generation isStatus, a = .success id' result →
        codec.project result = .payload data generation isStatus →
        generation.Timely w.hub.generation := by
      rintro id' result data generation isStatus rfl hproj
      exact ht rfl id kind id' result data generation isStatus hc hproj
    obtain hw | ⟨data, g, full, kind', -, hw⟩ := prepareStep_timely id kind hgen
    · rw [hw]; trivial
    · rw [hw]; trivial
  | @refused d id kind a data g full hc hno =>
    refine setPlace_places (fun hcd => ?_) fun _ => h
    subst hcd
    have hk := hs.kinds c
    rw [hc] at hk
    exact absurd ((WatchHub.publish_ok_iff _ _ _ _ _ hs.generation hk).2
      (ht rfl id kind a data g full hc)) hno
  | @written d id a drain hc | @undrained d id a drain hc =>
    exact setPlace_places (fun _ => ⟨id, rfl⟩) fun _ => h
  | @report d id a frames incident hc =>
    refine setPlace_places (fun hcd => ?_) fun _ => h
    subst hcd
    rw [hc] at h
    cases a with
    | none => trivial
    | some a =>
      obtain ⟨id', hhead⟩ := h
      exact ⟨id', by rw [List.head?_append, hhead]; rfl⟩
  | subscribe | unsubscribe | take => exact h

theorem serverStep_lost (h : (w.places c).Lost codec) (hstep : serverStep codec w ev = some w') :
    (w'.places c).Lost codec := by
  -- a client with a lost answer is in the `except` branch or done
  have hmoved : ∀ {hub : WatchHub P} {d : ℕ} {p q : ServerPlace R P}, w.places d = p →
      ¬ p.Lost codec → ((ServerWorld.setPlace ⟨hub, w.places⟩ d q).places c).Lost codec := by
    intro hub d p q hd hp
    refine setPlace_places (fun hcd => ?_) fun _ => h
    subst hcd
    rw [hd] at h
    exact absurd h hp
  cases serverStep_move hstep with
  | request hc | execute _ hc | raised hc => exact hmoved hc id
  | prepare hc | accepted hc | refused hc | written _ hc | undrained _ hc => exact hmoved hc id
  | @report d id a frames incident hc =>
    refine setPlace_places (fun hcd => ?_) fun _ => h
    subst hcd
    rw [hc] at h
    cases a with
    | none => cases h
    | some a =>
      have hnil : frames = [] := h
      exact ⟨id, incident, by rw [hnil]; rfl⟩
  | subscribe | unsubscribe | take => exact h

theorem serverStep_stale (hs : w.Sane) (hstep : serverStep codec w ev = some w')
    (ht : ¬ PublishesTimely codec c w ev) : (w'.places c).Lost codec := by
  cases serverStep_move hstep with
  | request | execute | raised | written | undrained | report | subscribe | unsubscribe | take =>
    exact absurd trivial ht
  | @prepare d id kind a hc =>
    simp only [PublishesTimely, not_forall] at ht
    obtain ⟨rfl, id', kind', id'', result, data, generation, isStatus, hplace, hproj, hstale⟩ := ht
    rw [hc] at hplace
    cases hplace
    refine setPlace_places (fun _ => ?_) fun hne => absurd rfl hne
    rw [prepareStep_stale hproj hstale]
    rfl
  | @accepted d id kind a data g full hc hok =>
    simp only [PublishesTimely, not_forall] at ht
    obtain ⟨rfl, id', kind', a', data', g', full', hplace, hstale⟩ := ht
    rw [hc] at hplace
    cases hplace
    have hk := hs.kinds d
    rw [hc] at hk
    exact absurd ((WatchHub.publish_ok_iff _ _ _ _ _ hs.generation hk).1 hok) hstale
  | refused =>
    simp only [PublishesTimely, not_forall] at ht
    obtain ⟨rfl, -⟩ := ht
    exact setPlace_places (fun _ => rfl) fun hne => absurd rfl hne

/-! ### Whole runs -/

structure ServerWorld.Fresh (w : ServerWorld R P) : Prop where
  generation : 0 ≤ w.hub.generation
  places : ∀ c, w.places c = .idle

theorem ServerWorld.Fresh.sane (h : w.Fresh) : w.Sane :=
  ⟨h.generation, fun c => by rw [h.places c]; trivial⟩

/-- Along a run the answer of `c` is kept or lost, as all publications of `c` are timely or not. -/
theorem run_delivered_or_lost {es : List (ServerEvent R)} (hs : w.Sane)
    (hrun : run (serverStep codec) w es = some w') :
    ((w.places c).Delivered codec →
      Along (serverStep codec) (fun s ev _ => PublishesTimely codec c s ev) w es →
      (w'.places c).Delivered codec) ∧
    ((w.places c).Lost codec ∨
      ¬ Along (serverStep codec) (fun s ev _ => PublishesTimely codec c s ev) w es →
      (w'.places c).Lost codec) := by
  induction es generalizing w with
  | nil =>
    cases hrun
    exact ⟨fun h _ => h, fun h => h.resolve_right (not_not.2 trivial)⟩
  | cons ev es ih =>
    obtain ⟨m, hm, hrun⟩ := Transition.run_cons.1 hrun
    obtain ⟨hkeep, hlose⟩ := ih (serverStep_sane hs hm) hrun
    refine ⟨fun h ht => ?_, fun h => ?_⟩
    · exact hkeep (serverStep_delivered hs h hm (ht.head hm)) (ht.tail hm)
    · rcases h with h | hn
      · exact hlose (.inl (serverStep_lost h hm))
      · by_cases hev : PublishesTimely codec c w ev
        · refine hlose (.inr fun hrest => hn fun m' hm' => ?_)
          rw [hm, Option.some_inj] at hm'
          exact ⟨hev, hm' ▸ hrest⟩
        · exact hlose (.inl (serverStep_stale hs hm hev))

theorem frame_incident_ne (i id : ℕ) (incident : String) (result : R) :
    frame codec i (incidentFailure i incident) ≠ .success id result := by
  unfold frame
  split <;> exact nofun

/-- **A client is sent the controller's success exactly when its publication was timely.** -/
theorem answer_delivered_iff (codec : ServerCodec R P) (w₀ w : ServerWorld R P)
    (es : List (ServerEvent R)) (h₀ : w₀.Fresh)
    (hrun : run (serverStep codec) w₀ es = some w) (c id : ℕ) (result : R)
    (frames : List (RpcResponse R)) (hc : w.places c = .closed (some (.success id result)) frames)
    (hfits : codec.frameBytes (.success id result) ≤ maxResponseBytes) :
    frames.head? = some (.success id result) ↔
      Along (serverStep codec) (fun s ev _ => PublishesTimely codec c s ev) w₀ es := by
  obtain ⟨hkeep, hlose⟩ := run_delivered_or_lost h₀.sane hrun
  rw [hc] at hkeep hlose
  constructor
  · intro hhead
    by_contra hn
    obtain ⟨i, incident, hlost⟩ := hlose (.inr hn)
    rw [hhead, Option.some_inj] at hlost
    exact frame_incident_ne i id incident result hlost.symm
  · intro ht
    obtain ⟨i, hhead⟩ := hkeep (by rw [h₀.places c]; trivial) ht
    rw [hhead, frame, if_neg (not_lt.2 hfits)]

end Server

/-! ### Two counters called generation -/

/-- The results the server tells apart.  A status snapshot carries the generation of the state
database, a readiness result the number of its ticket; other models carry none; a tuple of profiles
is neither a model nor a dictionary. -/
inductive WatchedResult
  | statusSnapshot (generation : ℕ)
  | readinessResult (generation : ℕ)
  | otherModel
  | profiles
  deriving DecidableEq

/-- Short responses with the payloads above. -/
def watchedCodec : ServerCodec WatchedResult WatchedResult where
  project
    | .statusSnapshot g => .payload (.statusSnapshot g) (.value g) true
    | .readinessResult g => .payload (.readinessResult g) (.value g) false
    | .otherModel => .payload .otherModel .absent false
    | .profiles => .none
  frameBytes _ := 200

def newServer : ServerWorld WatchedResult WatchedResult := ⟨.new {}, fun _ => .idle⟩

theorem newServer_fresh : newServer.Fresh := ⟨le_rfl, fun _ => rfl⟩

/-- A client asks for the status when the state database is at generation twelve. -/
def statusServed : List (ServerEvent WatchedResult) :=
  [.request 0 7 "get_status", .execute 0 (some (.success 7 (.statusSnapshot 12))), .prepare 0,
   .publish 0, .write 0 .done]

/-- Its publication was timely, and it is sent the snapshot. -/
theorem answer_delivered_iff_status :
    ∃ w, run (serverStep watchedCodec) newServer statusServed = some w ∧
      w.places 0 = .closed (some (.success 7 (.statusSnapshot 12)))
        [.success 7 (.statusSnapshot 12)] ∧
      Along (serverStep watchedCodec)
        (fun s ev _ => PublishesTimely watchedCodec 0 s ev) newServer statusServed :=
  ⟨_, rfl, rfl, (answer_delivered_iff watchedCodec newServer _ statusServed newServer_fresh rfl
    0 7 (.statusSnapshot 12) _ rfl (by decide)).1 rfl⟩

/-- A second client waits for the first start of the process: ticket one.  The controller answers
with a success that fits, and the client is sent an internal error. -/
theorem readiness_lost :
    ∃ w, run (serverStep watchedCodec) newServer
        (statusServed ++ [.request 1 8 "wait_readiness",
          .execute 1 (some (.success 8 (.readinessResult 1))), .prepare 1, .report 1 "incident"]) =
        some w ∧
      w.places 1 = .closed (some (.success 8 (.readinessResult 1)))
        [incidentFailure 8 "incident"] ∧
      watchedCodec.frameBytes (.success 8 (.readinessResult 1)) ≤ maxResponseBytes ∧
      (incidentFailure 8 "incident" : RpcResponse WatchedResult) ≠
        .success 8 (.readinessResult 1) :=
  ⟨_, rfl, rfl, by decide, fun h => by cases h⟩

end Horizon
