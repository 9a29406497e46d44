/-
**Performance alerts: a sliding window of tick times.**

`PerformanceAlertEvaluator.observe` keeps the last tick times of each profile, drops those that are
more than 35 seconds old, and takes overload for sustained if at least four are left, the oldest of
them is at least 30 seconds old, and all are above the threshold.  Between the two limits is a band
of five seconds, and samples that are up to ten seconds apart can step over it.

Main results:

* `overload_alerts_iff` — **the alert is raised exactly if some call fell into the band**.
-/

import Mathlib.Tactic

namespace Horizon.Alert

open List
open Function

/-! ### One call -/

inductive AlertSignal
  | sustainedMspt | memoryGrowth | diskPressure | wakeSlo | benchmarkRegression
  deriving DecidableEq

/-- The states of a profile that the evaluator tells apart. -/
inductive ProfileState
  | starting | running | other
  deriving DecidableEq

/-- Times and values. -/
abbrev Samples := List (ℚ × ℚ)

structure Evaluator where
  mspt : String → Samples := fun _ => []
  rss : String → Samples := fun _ => []
  breached : String → AlertSignal → Bool := fun _ _ => false
  memoryIncidentPeak : String → Option ℚ := fun _ => none

/-- The arguments of a call. -/
structure Observation where
  profileId : String
  profileState : ProfileState
  now : ℚ
  msptP95 : Option ℚ := none
  rssBytes : Option ℚ := none
  wakeDurationMs : Option ℚ := none
  benchmarkRegression : Option Bool := none

def finite (value : Option ℚ) : Option ℚ := value.filter (0 ≤ ·)

/-- The loop that drops samples before `boundary`, but never the last one. -/
def prune (boundary : ℚ) : Samples → Samples
  | x :: y :: rest => if x.1 < boundary then prune boundary (y :: rest) else x :: y :: rest
  | [x] => [x]
  | [] => []

/-- `append` on a `deque` of at most 256 samples, and the loop after it. -/
def window (span : ℚ) (samples : Samples) (now value : ℚ) : Samples :=
  prune (now - span - 5) ((samples ++ [(now, value)]).drop (samples.length + 1 - 256))

def sustained (samples : Samples) (now : ℚ) : Bool :=
  4 ≤ samples.length ∧ (∃ first ∈ samples.head?, first.1 ≤ now - 30) ∧
    ∀ sample ∈ samples, 50 ≤ sample.2

/-- Whether memory has grown, and the peak of the incident. -/
def memoryGrowth (samples : Samples) (now rss : ℚ) (wasBreached : Bool) (peak : Option ℚ) :
    Bool × Option ℚ :=
  if wasBreached then
    let highest := max (peak.getD rss) rss
    if highest - rss < 268435456 then (true, some highest) else (false, none)
  else
    let first := samples.headD (now, rss)
    if 600 ≤ now - first.1 ∧ 536870912 ≤ rss - first.2 then (true, some rss) else (false, peak)

variable (e : Evaluator) (o : Observation)

def setBreached (signal : AlertSignal) (flag : Bool) : Evaluator :=
  { e with breached := update e.breached o.profileId (update (e.breached o.profileId) signal flag) }

def observeMspt : Evaluator :=
  match finite o.msptP95 with
  | none => e
  | some value =>
    let samples := window 30 (e.mspt o.profileId) o.now value
    setBreached { e with mspt := update e.mspt o.profileId samples } o .sustainedMspt
      (sustained samples o.now)

def observeRss : Evaluator :=
  match finite o.rssBytes with
  | none => e
  | some value =>
    let samples := window 600 (e.rss o.profileId) o.now value
    let growth := memoryGrowth samples o.now value (e.breached o.profileId .memoryGrowth)
      (e.memoryIncidentPeak o.profileId)
    setBreached { e with rss := update e.rss o.profileId samples
                         memoryIncidentPeak := update e.memoryIncidentPeak o.profileId growth.2 }
      o .memoryGrowth growth.1

/-- What a profile that is not running loses. -/
def clear : Evaluator :=
  setBreached (setBreached
    { e with mspt := update e.mspt o.profileId []
             rss := update e.rss o.profileId []
             memoryIncidentPeak := update e.memoryIncidentPeak o.profileId none }
    o .sustainedMspt false) o .memoryGrowth false

def observeWake : Evaluator :=
  match finite o.wakeDurationMs with
  | some wake => setBreached e o .wakeSlo (180000 < wake)
  | none => if o.profileState = .other then setBreached e o .wakeSlo false else e

def observeBenchmark : Evaluator :=
  match o.benchmarkRegression with
  | none => e
  | some flag => setBreached e o .benchmarkRegression flag

/-- `observe`, without the emissions, which are read off the state that is returned here. -/
def observe : Except String Evaluator :=
  if o.profileId = "" ∨ 128 < o.profileId.length then .error "invalid alert profile"
  else if o.now < 0 then .error "invalid alert timestamp"
  else
    let sampled := if o.profileState = .running then observeRss (observeMspt e o) o else clear e o
    .ok (observeBenchmark (observeWake sampled o) o)

/-- The breached signals, ordered by their names. -/
def activeSignals (profile : String) : List AlertSignal :=
  [.benchmarkRegression, .diskPressure, .memoryGrowth, .sustainedMspt, .wakeSlo].filter
    (e.breached profile)

/-- Calls one after the other; the first that raises ends them. -/
def observeAll (calls : List Observation) : Except String Evaluator := calls.foldlM observe e

/-- The window and the flag of the profile that is observed. -/
def shown : Samples × Bool := (e.mspt o.profileId, e.breached o.profileId .sustainedMspt)

variable {e o} {signal : AlertSignal} {flag : Bool}

theorem shown_setBreached (h : signal ≠ .sustainedMspt) :
    shown (setBreached e o signal flag) o = shown e o := by
  simp [shown, setBreached, update_of_ne h.symm]

/-- Only the part for the tick times changes what is shown. -/
theorem shown_rest : shown (observeBenchmark (observeWake (observeRss e o) o) o) o = shown e o := by
  have hrss : shown (observeRss e o) o = shown e o := by
    unfold observeRss
    split
    · rfl
    · exact shown_setBreached (by decide)
  have hwake : shown (observeWake (observeRss e o) o) o = shown e o := by
    unfold observeWake
    split
    · exact (shown_setBreached (by decide)).trans hrss
    · split_ifs
      · exact (shown_setBreached (by decide)).trans hrss
      · exact hrss
  unfold observeBenchmark
  split
  · exact hwake
  · exact (shown_setBreached (by decide)).trans hwake

/-! ### The window -/

variable {boundary : ℚ} {samples seen : Samples} {x y : ℚ × ℚ}

theorem prune_eq_dropWhile (h : ∀ x ∈ samples.getLast?, boundary ≤ x.1) :
    prune boundary samples = samples.dropWhile (·.1 < boundary) := by
  fun_induction prune boundary samples with
  | case1 x y rest hlt ih => simp only [ih (by simpa using h), dropWhile, hlt, decide_true]
  | case2 x y rest hlt => simp [dropWhile, hlt]
  | case3 x => simp [dropWhile, not_lt.2 (h x rfl)]
  | case4 => rfl

theorem dropWhile_dropWhile_append {α : Type} {p q : α → Bool} (h : ∀ x, p x → q x)
    (l r : List α) : (l.dropWhile p ++ r).dropWhile q = (l ++ r).dropWhile q := by
  induction l with
  | nil => rfl
  | cons x l ih =>
    by_cases hx : p x
    · simp [hx, h x hx, ih]
    · simp [hx]

/-- Times that go up by one to ten seconds. -/
def Spaced (samples : Samples) : Prop := samples.IsChain fun x y => x.1 + 1 ≤ y.1 ∧ y.1 ≤ x.1 + 10

theorem Spaced.span (h : Spaced (x :: samples)) (hy : (x :: samples).getLast? = some y) :
    x.1 + samples.length ≤ y.1 ∧ y.1 ≤ x.1 + 10 * samples.length := by
  induction samples generalizing x with
  | nil => simp_all
  | cons z samples ih =>
    rw [Spaced, isChain_cons_cons] at h
    have hrest := ih h.2 (by simpa using hy)
    push_cast [length_cons]
    constructor
    · linarith
    · linarith

theorem Spaced.head_le (h : Spaced (x :: samples)) (hy : y ∈ x :: samples) : x.1 ≤ y.1 := by
  induction samples generalizing x with
  | nil => simp_all
  | cons z samples ih =>
    rw [Spaced, isChain_cons_cons] at h
    rcases mem_cons.1 hy with rfl | hy
    · exact le_rfl
    · linarith [ih h.2 hy]

/-- The samples of the last 35 seconds. -/
def recent (now : ℚ) (samples : Samples) : Samples := samples.dropWhile (·.1 < now - 30 - 5)

/-- What is recent is spaced, begins in the last 35 seconds, and ends with the last sample. -/
theorem Spaced.recent_cons {now : ℚ} (h : Spaced samples) (hx : recent now samples = x :: seen)
    (hy : samples.getLast? = some y) :
    Spaced (x :: seen) ∧ now - 30 - 5 ≤ x.1 ∧ (x :: seen).getLast? = some y := by
  obtain ⟨old, hold⟩ : x :: seen <:+ samples := hx ▸ dropWhile_suffix _
  refine ⟨hx ▸ h.suffix (dropWhile_suffix _), ?_, ?_⟩
  · have hhead := head?_dropWhile_not (fun z : ℚ × ℚ => decide (z.1 < now - 30 - 5)) samples
    rw [← recent, hx] at hhead
    simpa using hhead
  · rw [← hold] at hy
    simpa using hy

theorem recent_eq_self {now : ℚ} (h : ∀ x ∈ samples, now - 30 - 5 ≤ x.1) :
    recent now samples = samples := by
  cases samples with
  | nil => rfl
  | cons x rest => exact dropWhile_cons_of_neg (by simpa using h x (.head _))

/-- Samples of an earlier time leave the window before those of the overload do. -/
theorem window_recent {first before now value : ℚ} {old : Samples}
    (hlen : (recent before seen).length ≤ 36) (hle : before ≤ now) (hfirst : first ≤ now)
    (hold : ∀ x ∈ old, x.1 ≤ first) (hseen : ∀ x ∈ seen, first ≤ x.1)
    (hkept : old ≠ [] → recent before seen = seen) :
    ∃ old', window 30 (old ++ recent before seen) now value =
        old' ++ recent now (seen ++ [(now, value)]) ∧ (∀ x ∈ old', x.1 ≤ first) ∧
      (old' ≠ [] → recent now (seen ++ [(now, value)]) = seen ++ [(now, value)]) ∧
      ∀ x ∈ old'.head?, now - 30 - 5 ≤ x.1 := by
  obtain ⟨k, hk⟩ : ∃ k, k = (old ++ recent before seen).length + 1 - 256 := ⟨_, rfl⟩
  have hk' : k ≤ old.length := by
    rw [length_append] at hk
    omega
  have hwindow : window 30 (old ++ recent before seen) now value =
      (old.drop k ++ (recent before seen ++ [(now, value)])).dropWhile (·.1 < now - 30 - 5) := by
    rw [window, ← hk, append_assoc, drop_append_of_le_length hk',
      prune_eq_dropWhile (by simp; linarith)]
  have hsub : ∀ x ∈ recent now (old.drop k), x.1 ≤ first := fun x hx =>
    hold x ((drop_suffix k old).subset ((dropWhile_suffix _).subset hx))
  have hhead : ∀ x ∈ (recent now (old.drop k)).head?, now - 30 - 5 ≤ x.1 := by
    intro x hx
    have hnot := head?_dropWhile_not (fun z : ℚ × ℚ => decide (z.1 < now - 30 - 5)) (old.drop k)
    rw [← recent, Option.mem_def.1 hx] at hnot
    simpa using hnot
  have hwhole : recent now (old.drop k) ≠ [] →
      recent now (seen ++ [(now, value)]) = seen ++ [(now, value)] := by
    intro hne
    obtain ⟨x, rest, hx⟩ := exists_cons_of_ne_nil hne
    rw [hx] at hsub hhead
    have hlow := (hhead x rfl).trans (hsub x (.head _))
    refine recent_eq_self fun y hy => hlow.trans ?_
    rcases mem_append.1 hy with hy | hy
    · exact hseen y hy
    · rw [mem_singleton.1 hy]
      exact hfirst
  refine ⟨recent now (old.drop k), ?_, hsub, hwhole, hhead⟩
  rw [hwindow, dropWhile_append, ← recent]
  split
  · rename_i hempty
    rw [List.isEmpty_iff.1 hempty, nil_append]
    exact dropWhile_dropWhile_append (by simp; intros; linarith) _ _
  · rename_i hne
    have hne := mt List.isEmpty_iff.2 hne
    rw [hwhole hne, hkept fun h => hne (by simp [h, recent])]

/-! ### Overload -/

variable {e e' : Evaluator} {o : Observation} {profile : String} {first before now : ℚ}

/-- The sample of a call. -/
def sample (o : Observation) : ℚ × ℚ := (o.now, o.msptP95.getD 0)

/-- A call for a running profile that is overloaded. -/
def Overloaded (profile : String) (o : Observation) : Prop :=
  o.profileId = profile ∧ o.profileState = .running ∧ ∃ value ∈ o.msptP95, 50 ≤ value

/-- The window holds what is recent of the samples `seen`, after what is left of samples up to
`first`, and the flag is that of the window. -/
structure Follows (profile : String) (first : ℚ) (seen : Samples) (now : ℚ) (e : Evaluator) :
    Prop where
  mspt : ∃ old, e.mspt profile = old ++ recent now seen ∧ (∀ x ∈ old, x.1 ≤ first) ∧
    (old ≠ [] → recent now seen = seen) ∧ (seen ≠ [] → ∀ x ∈ old.head?, now - 30 - 5 ≤ x.1)
  flag : seen ≠ [] → e.breached profile .sustainedMspt = sustained (e.mspt profile) now
  length : (recent now seen).length ≤ 36

/-- **One call of an overload.** -/
theorem Follows.observe (h : Follows profile first seen before e) (ho : Overloaded profile o)
    (hle : before ≤ o.now) (hspaced : Spaced (seen ++ [sample o]))
    (hfirst : ∀ x ∈ seen ++ [sample o], first ≤ x.1) (hstep : observe e o = .ok e') :
    Follows profile first (seen ++ [sample o]) o.now e' := by
  obtain ⟨rfl, hrunning, value, hvalue, hvalue'⟩ := ho
  have hfinite : finite o.msptP95 = some (sample o).2 := by
    rw [finite, sample, hvalue, Option.filter_some, if_pos (decide_eq_true (by linarith))]
    rfl
  have hshown : shown e' o = shown (observeMspt e o) o := by
    rw [Alert.observe, if_pos hrunning] at hstep
    split_ifs at hstep
    cases hstep
    exact shown_rest
  obtain ⟨old, hmspt, hold, hkept, -⟩ := h.mspt
  obtain ⟨old', hwindow, hold', hkept', hhead⟩ := @window_recent seen first before o.now
    (sample o).2 old h.length hle (hfirst (sample o) (by simp)) hold
    (fun x hx => hfirst x (mem_append_left _ hx)) hkept
  simp only [shown, observeMspt, hfinite, setBreached, update_self, Prod.mk.injEq] at hshown
  rw [hmspt, hwindow] at hshown
  refine ⟨⟨old', hshown.1, hold', hkept', fun _ => hhead⟩, fun _ => hshown.1 ▸ hshown.2, ?_⟩
  cases hrecent : recent o.now (seen ++ [sample o]) with
  | nil => simp
  | cons x rest =>
    obtain ⟨hspaced, hlow, hlast⟩ := hspaced.recent_cons hrecent getLast?_concat
    have hspan : x.1 + rest.length ≤ o.now := (hspaced.span hlast).1
    have hlength : (rest.length : ℚ) ≤ 35 := by linarith
    exact Nat.succ_le_succ (by exact_mod_cast hlength)

variable {calls : List Observation}

/-- **A run of them.** -/
theorem Follows.observeAll (h : Follows profile first seen before e)
    (hcalls : ∀ o ∈ calls, Overloaded profile o) (hspaced : Spaced (seen ++ calls.map sample))
    (hfirst : ∀ x ∈ seen ++ calls.map sample, first ≤ x.1)
    (hle : ∀ o ∈ calls.head?, before ≤ o.now) (hrun : observeAll e calls = .ok e') :
    Follows profile first (seen ++ calls.map sample) ((calls.map (·.now)).getLastD before) e' := by
  induction calls generalizing e seen before with
  | nil =>
    cases hrun
    simpa using h
  | cons o calls ih =>
    rw [Alert.observeAll, foldlM_cons] at hrun
    cases hstep : Alert.observe e o with
    | error message =>
      rw [hstep] at hrun
      cases hrun
    | ok mid =>
      rw [hstep] at hrun
      rw [map_cons, append_cons] at hspaced hfirst
      have hparts := isChain_append.1 hspaced
      have hmid := h.observe (hcalls o (.head _)) (hle o rfl) hparts.1
        (fun x hx => hfirst x (mem_append_left _ hx)) hstep
      have hall := ih hmid (fun o' ho' => hcalls o' (.tail _ ho')) hspaced hfirst ?_ hrun
      · rw [map_cons, append_cons, map_cons, getLastD_cons]
        exact hall
      · intro next hnext
        have hgap := hparts.2.2 (sample o) (by simp) (sample next)
          (head?_map .. ▸ Option.mem_map_of_mem sample hnext)
        exact (le_add_of_nonneg_right zero_le_one).trans hgap.1

/-- After 40 seconds nothing is left of the samples before the overload. -/
theorem Follows.flag_recent (h : Follows profile first seen now e) (hne : seen ≠ [])
    (hlong : first + 40 ≤ now) :
    e.breached profile .sustainedMspt = sustained (recent now seen) now := by
  obtain ⟨old, hmspt, hold, -, hhead⟩ := h.mspt
  rw [h.flag hne, hmspt]
  cases old with
  | nil => rfl
  | cons x old =>
    have hlow := hhead hne x rfl
    have hhigh := hold x (.head _)
    linarith

/-- **The alert and the band**: an overload of 40 seconds raises the alert exactly if some call was
between 30 and 35 seconds before the last one, whatever the evaluator held before the first. -/
theorem overload_alerts_iff {start last : Observation}
    (hold : ∀ x ∈ e.mspt profile, x.1 ≤ start.now)
    (hcalls : ∀ o ∈ calls, Overloaded profile o) (hspaced : Spaced (calls.map sample))
    (hrun : observeAll e calls = .ok e') (hstart : calls.head? = some start)
    (hlast : calls.getLast? = some last) (hlong : start.now + 40 ≤ last.now) :
    .sustainedMspt ∈ activeSignals e' profile ↔
      ∃ o ∈ calls, last.now - 35 ≤ o.now ∧ o.now ≤ last.now - 30 := by
  have hne : calls.map sample ≠ [] := by
    intro hnil
    simp [map_eq_nil_iff.1 hnil] at hstart
  have hfirst : ∀ x ∈ calls.map sample, start.now ≤ x.1 := by
    obtain ⟨rest, rfl⟩ := head?_eq_some_iff.1 hstart
    exact fun x hx => hspaced.head_le hx
  have hbegin : Follows profile start.now [] start.now e :=
    ⟨⟨e.mspt profile, by simp [recent], hold, fun _ => rfl, by simp⟩, by simp, by simp [recent]⟩
  have hend := hbegin.observeAll hcalls hspaced hfirst
    (fun o ho => by rw [hstart] at ho; cases ho; exact le_rfl) hrun
  rw [nil_append, getLastD_eq_getLast?, getLast?_map, hlast] at hend
  have hactive : .sustainedMspt ∈ activeSignals e' profile ↔
      sustained (recent last.now (calls.map sample)) last.now = true := by
    simpa [activeSignals] using congrArg (· = true) (hend.flag_recent hne hlong)
  have hlast' : (calls.map sample).getLast? = some (sample last) := by
    rw [getLast?_map, hlast]
    rfl
  rw [hactive, sustained, decide_eq_true_iff]
  constructor
  · rintro ⟨-, ⟨x, hx, hhigh⟩, -⟩
    obtain ⟨rest, hrest⟩ := head?_eq_some_iff.1 hx
    have hmem : x ∈ calls.map sample :=
      (dropWhile_suffix _).subset (hrest ▸ mem_cons_self)
    obtain ⟨o, ho, rfl⟩ := mem_map.1 hmem
    have hlow : last.now - 30 - 5 ≤ o.now := (hspaced.recent_cons hrest hlast').2.1
    exact ⟨o, ho, by linarith, hhigh⟩
  · rintro ⟨o, ho, hlow, hhigh⟩
    have hmem : sample o ∈ recent last.now (calls.map sample) := by
      have hall : sample o ∈ (calls.map sample).takeWhile (·.1 < last.now - 30 - 5) ++
          recent last.now (calls.map sample) := by
        rw [recent, takeWhile_append_dropWhile]
        exact mem_map_of_mem ho
      refine (mem_append.1 hall).resolve_left fun htake => ?_
      have hold := all_eq_true.1 all_takeWhile _ htake
      have hold : o.now < last.now - 30 - 5 := of_decide_eq_true hold
      linarith
    cases hrest : recent last.now (calls.map sample) with
    | nil =>
      rw [hrest] at hmem
      cases hmem
    | cons x rest =>
      rw [hrest] at hmem
      obtain ⟨hspaced', -, hend'⟩ := hspaced.recent_cons hrest hlast'
      have hhead : x.1 ≤ o.now := hspaced'.head_le hmem
      have hspan : last.now ≤ x.1 + 10 * rest.length := (hspaced'.span hend').2
      have hlength : (3 : ℚ) ≤ rest.length := by linarith
      refine ⟨Nat.succ_le_succ (by exact_mod_cast hlength), ⟨x, rfl, hhead.trans hhigh⟩, ?_⟩
      intro y hy
      obtain ⟨o, ho, rfl⟩ := mem_map.1
        ((dropWhile_suffix _).subset (show y ∈ recent last.now _ from hrest ▸ hy))
      obtain ⟨-, -, value, hvalue, hle⟩ := hcalls o ho
      rwa [sample, hvalue]

/-- Calls at multiples of `gap` seconds. -/
def steady (gap : ℚ) (n : ℕ) : List Observation :=
  (range n).map fun k : ℕ => ⟨"minecraft", .running, gap * k, some 60, none, none, none⟩

theorem steady_overloaded (gap : ℚ) (n : ℕ) : ∀ o ∈ steady gap n, Overloaded "minecraft" o := by
  norm_num [steady, Overloaded]

theorem steady_spaced : Spaced ((steady 9 6).map sample) ∧ Spaced ((steady 10 5).map sample) := by
  unfold Spaced
  decide +kernel

/-- With a call every nine seconds the alert is not raised. -/
theorem overload_every_nine : (∀ o ∈ steady 9 6, Overloaded "minecraft" o) ∧
    Spaced ((steady 9 6).map sample) ∧ (steady 9 6).head?.map (·.now) = some 0 ∧
    (steady 9 6).getLast?.map (·.now) = some 45 ∧
    (observeAll {} (steady 9 6)).map (activeSignals · "minecraft") = .ok [] :=
  ⟨steady_overloaded 9 6, steady_spaced.1, by decide +kernel, by decide +kernel, by decide +kernel⟩

/-- An evaluator that has seen a low sample. -/
def quiet : Evaluator := { mspt := fun _ => [(0, 20)] }

theorem overload_every_ten : ∃ e', observeAll quiet (steady 10 5) = .ok e' ∧
    .sustainedMspt ∈ activeSignals e' "minecraft" := by
  have hok : (observeAll quiet (steady 10 5)).isOk = true := by decide +kernel
  cases hrun : observeAll quiet (steady 10 5) with
  | error message =>
    rw [hrun] at hok
    cases hok
  | ok e' =>
    refine ⟨e', rfl, (overload_alerts_iff (by simp [quiet]) (steady_overloaded 10 5)
      steady_spaced.2 hrun rfl rfl (by norm_num)).2
      ⟨⟨"minecraft", .running, 10 * (1 : ℕ), some 60, none, none, none⟩, ?_⟩⟩
    exact ⟨mem_map.2 ⟨1, by simp, rfl⟩, by norm_num, by norm_num⟩

end Horizon.Alert
