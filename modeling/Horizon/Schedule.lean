/-
**Cron entries and their next fire time.**

A minute is counted from the first day of the calendar.  `_find_next_fire` goes through the days of
a horizon and, on a day that matches, through the hours and minutes of the entry.  A schedule is
accepted when each entry has a fire time in the next 1464 days; the calendar repeats after 400
years, which are whole weeks, so whether that stays true is a question about one such cycle.

Main results:

* `Schedule.finds_least_iff` — **when it finds the least one**;
* `Schedule.stays_usable_iff` — **when an accepted schedule stays accepted**.
-/

import Horizon.Calendar

namespace Horizon.Schedule

open List
open Calendar (cycle monthOf dayOf lastDay)

/-! ### Entries -/

/-- `_CronField`: a set of numbers between two bounds, in their order. -/
structure CronField (low high : ℕ) where
  values : List ℕ
  sorted : values.Pairwise (· < ·)
  nonempty : values ≠ []
  bounded : ∀ v ∈ values, low ≤ v ∧ v ≤ high

structure ScheduleEntry where
  cron : String
  profile : String
  minute : CronField 0 59
  hour : CronField 0 23
  day : CronField 1 31
  month : CronField 1 12
  weekday : CronField 0 6
  enabled : Bool := true
  backupDestination : Option String := none
  operation : String := "backup"
  baselinePreset : Option String := none
  candidatePreset : Option String := none
  campaign : Option String := none
  maintenanceWindow : Bool := false
  rollbackSafe : Bool := false
  publicWakePolicy : String := "disabled"

variable (e : ScheduleEntry) (n : ℕ) (entries : List ScheduleEntry) (now : ℕ)

/-- Month, day and weekday of a day; cron counts the weekdays from Sunday. -/
def ScheduleEntry.matchesDay : Bool :=
  monthOf n ∈ e.month.values && dayOf n ∈ e.day.values &&
    (Calendar.weekday n + 1) % 7 ∈ e.weekday.values

/-- `ScheduleEntry.matches`, for a minute. -/
def ScheduleEntry.matches (m : ℕ) : Bool :=
  m % 60 ∈ e.minute.values && m / 60 % 24 ∈ e.hour.values && e.matchesDay (m / 1440)

/-- The minutes of a day that the search tries, in their order. -/
def ScheduleEntry.possible : List ℕ :=
  e.hour.values.flatMap fun hour => e.minute.values.map fun minute => n * 1440 + hour * 60 + minute

/-- `_find_next_fire`, from a whole minute on. -/
def findNextFire (candidate days : ℕ) : Option ℕ :=
  (range (days + 1)).findSome? fun k =>
    if e.matchesDay (candidate / 1440 + k) then
      (e.possible (candidate / 1440 + k)).find? fun m => candidate ≤ m ∧ m ≤ candidate + days * 1440
    else none

def horizonDays : ℕ := 366 * 4

/-- The first whole minute that is not before a time in microseconds. -/
def candidate : ℕ := (now + 59999999) / 60000000

/-- `next_fire`; `none` is the exception of a search without a result. -/
def nextFire : Option (Option ℕ) :=
  if e.enabled then (findNextFire e (candidate now) horizonDays).map some else some none

/-- `parse_schedule` at the time `now`, of entries that are well formed. -/
def parseSchedule : Option (List ScheduleEntry) :=
  if entries.all fun e => (findNextFire e (candidate now) horizonDays).isSome then some entries
  else none

/-! ### The search -/

variable {e}

theorem mem_possible {n m : ℕ} : m ∈ e.possible n ↔
    m / 1440 = n ∧ m % 60 ∈ e.minute.values ∧ m / 60 % 24 ∈ e.hour.values := by
  simp only [ScheduleEntry.possible, mem_flatMap, mem_map]
  constructor
  · rintro ⟨hour, hhour, minute, hminute, rfl⟩
    have h₁ := (e.hour.bounded hour hhour).2
    have h₂ := (e.minute.bounded minute hminute).2
    refine ⟨by omega, ?_, ?_⟩
    · rwa [show (n * 1440 + hour * 60 + minute) % 60 = minute by omega]
    · rwa [show (n * 1440 + hour * 60 + minute) / 60 % 24 = hour by omega]
  · rintro ⟨rfl, hminute, hhour⟩
    exact ⟨_, hhour, _, hminute, by omega⟩

/-- The minutes that a search over `days` days after the day `n` tries, in their order. -/
def ScheduleEntry.tried (e : ScheduleEntry) (n days : ℕ) : List ℕ :=
  (range (days + 1)).flatMap fun k => if e.matchesDay (n + k) then e.possible (n + k) else []

theorem mem_tried {n days m : ℕ} :
    m ∈ e.tried n days ↔ e.matches m = true ∧ n ≤ m / 1440 ∧ m / 1440 ≤ n + days := by
  simp only [ScheduleEntry.tried, ScheduleEntry.matches, mem_flatMap, mem_range,
    mem_ite_nil_right, mem_possible, Bool.and_eq_true, decide_eq_true_eq]
  constructor
  · rintro ⟨k, hk, hday, hm, hminute, hhour⟩
    exact ⟨⟨⟨hminute, hhour⟩, hm ▸ hday⟩, by omega, by omega⟩
  · rintro ⟨⟨⟨hminute, hhour⟩, hday⟩, hlow, hhigh⟩
    have hk : n + (m / 1440 - n) = m / 1440 := by omega
    exact ⟨m / 1440 - n, by omega, by rwa [hk], hk.symm, hminute, hhour⟩

theorem sorted_possible : (e.possible n).Pairwise (· < ·) := by
  refine pairwise_flatMap.2 ⟨fun hour _ => ?_, ?_⟩
  · exact pairwise_map.2 (e.minute.sorted.imp fun h => by omega)
  · refine e.hour.sorted.imp fun hlt m hm m' hm' => ?_
    obtain ⟨minute, hminute, rfl⟩ := mem_map.1 hm
    obtain ⟨minute', -, rfl⟩ := mem_map.1 hm'
    have hbound := (e.minute.bounded minute hminute).2
    omega

theorem sorted_tried (n days : ℕ) : (e.tried n days).Pairwise (· < ·) := by
  refine pairwise_flatMap.2 ⟨fun k _ => ?_, ?_⟩
  · split
    · exact sorted_possible _
    · exact .nil
  · refine pairwise_lt_range.imp fun hlt m hm m' hm' => ?_
    have h := mem_possible.1 (mem_ite_nil_right.1 hm).2
    have h' := mem_possible.1 (mem_ite_nil_right.1 hm').2
    omega

theorem findNextFire_eq (c days : ℕ) : findNextFire e c days =
    (e.tried (c / 1440) days).find? fun m => c ≤ m ∧ m ≤ c + days * 1440 := by
  rw [findNextFire, ScheduleEntry.tried, find?_flatMap]
  congr 1
  funext k
  split <;> rfl

/-- The fire times in a horizon. -/
def ScheduleEntry.fireTimes (e : ScheduleEntry) (c days : ℕ) : Set ℕ :=
  {m | c ≤ m ∧ m ≤ c + days * 1440 ∧ e.matches m = true}

theorem mem_fireTimes {c days m : ℕ} : m ∈ e.fireTimes c days ↔
    m ∈ e.tried (c / 1440) days ∧ c ≤ m ∧ m ≤ c + days * 1440 := by
  simp only [ScheduleEntry.fireTimes, Set.mem_ofPred_eq, mem_tried]
  constructor
  · rintro ⟨hlow, hhigh, hm⟩
    exact ⟨⟨hm, by omega, by omega⟩, hlow, hhigh⟩
  · rintro ⟨⟨hm, -⟩, hlow, hhigh⟩
    exact ⟨hlow, hhigh, hm⟩

/-- The search finds a fire time exactly if there is one in the horizon. -/
theorem findNextFire_isSome {c days : ℕ} : (findNextFire e c days).isSome = true ↔
    ∃ m, c ≤ m ∧ m ≤ c + days * 1440 ∧ e.matches m = true := by
  rw [findNextFire_eq, find?_isSome]
  refine exists_congr fun m => ?_
  rw [decide_eq_true_eq]
  exact mem_fireTimes.symm

/-- What the search finds is the least fire time: it tries the minutes in their order. -/
theorem findNextFire_isLeast {c days t : ℕ} (h : findNextFire e c days = some t) :
    IsLeast (e.fireTimes c days) t := by
  rw [findNextFire_eq, find?_eq_some_iff_append] at h
  obtain ⟨ht, before, after, htried, hbefore⟩ := h
  have hsorted := htried ▸ sorted_tried (c / 1440) days
  have hmem : t ∈ e.tried (c / 1440) days := by simp [htried]
  refine ⟨mem_fireTimes.2 ⟨hmem, of_decide_eq_true ht⟩, fun m hm => ?_⟩
  obtain ⟨hm, hbounds⟩ := mem_fireTimes.1 hm
  rw [htried, mem_append, mem_cons] at hm
  rcases hm with hm | rfl | hm
  · have hout := hbefore m hm
    simp [hbounds] at hout
  · exact le_rfl
  · exact ((pairwise_cons.1 (pairwise_append.1 hsorted).2.1).1 m hm).le

/-! ### The end of the calendar -/

inductive SearchError
  | valueError | overflowError
deriving DecidableEq

/-- `_find_next_fire` at a time in microseconds.  When the last day of the horizon has no fire time,
the loop goes on to the day after it, which the calendar may not have. -/
def searchFire (e : ScheduleEntry) (now days : ℕ) : Except SearchError ℕ :=
  if candidate now + days * 1440 < lastDay * 1440 then
    match findNextFire e (candidate now) days with
    | some t => .ok t
    | none =>
        .error (if candidate now / 1440 + days + 1 < lastDay then .valueError
          else .overflowError)
  else .error .overflowError

/-- The search returns the least fire time of the horizon, and raises `ValueError` exactly when
there is none. -/
def FindsLeast (e : ScheduleEntry) (now days : ℕ) : Prop :=
  (∀ t, searchFire e now days = .ok t ↔ IsLeast (e.fireTimes (candidate now) days) t) ∧
    (searchFire e now days = .error .valueError ↔ e.fireTimes (candidate now) days = ∅)

/-- **The search for the next fire time finds the least one**, in a horizon inside the calendar,
exactly when the horizon has a fire time or ends before the last day of the calendar. -/
theorem finds_least_iff (e : ScheduleEntry) (now days : ℕ)
    (hrange : candidate now + days * 1440 < lastDay * 1440) :
    FindsLeast e now days ↔ (e.fireTimes (candidate now) days).Nonempty ∨
      (candidate now + days * 1440) / 1440 + 1 < lastDay := by
  have hday : (candidate now + days * 1440) / 1440 = candidate now / 1440 + days := by omega
  rw [hday, FindsLeast, searchFire, if_pos hrange]
  rcases hfound : findNextFire e (candidate now) days with - | t
  · have hempty : e.fireTimes (candidate now) days = ∅ := by
      refine Set.eq_empty_iff_forall_notMem.2 fun m hm => ?_
      simpa [hfound] using findNextFire_isSome.2 ⟨m, hm⟩
    simp [hempty, IsLeast]
  · have hleast := findNextFire_isLeast hfound
    have hne : (e.fireTimes (candidate now) days).Nonempty := ⟨t, hleast.1⟩
    simp only [hne, Except.ok.injEq, reduceCtorEq, hne.ne_empty, true_or, iff_true, and_true]
    exact fun s => ⟨fun h => h ▸ hleast, hleast.unique⟩

/-- **No fire is skipped or moved by asking again**: every search until the fire time found finds it
too, if its horizon is inside the calendar. -/
theorem searchFire_steady (e : ScheduleEntry) (now later days m : ℕ)
    (h : searchFire e now days = .ok m) (hle : now ≤ later) (hm : later ≤ m * 60000000)
    (hrange : candidate later + days * 1440 < lastDay * 1440) :
    searchFire e later days = .ok m := by
  have hfrom : candidate now ≤ candidate later ∧ candidate later ≤ m := by
    unfold candidate
    omega
  rw [searchFire, if_pos (by omega)] at h
  have hfound : findNextFire e (candidate now) days = some m := by
    split at h <;> simp_all
  have hleast := findNextFire_isLeast hfound
  obtain ⟨-, hend, hfires⟩ := hleast.1
  have hmem : m ∈ e.fireTimes (candidate later) days := ⟨hfrom.2, by omega, hfires⟩
  obtain ⟨t, ht⟩ := Option.isSome_iff_exists.1 (findNextFire_isSome.2 ⟨m, hmem⟩)
  have hleast' := findNextFire_isLeast ht
  have htm : t ≤ m := hleast'.2 hmem
  have hmt : m ≤ t := hleast.2 ⟨hfrom.1.trans hleast'.1.1, htm.trans hend, hleast'.1.2.2⟩
  rw [searchFire, if_pos hrange, ht, le_antisymm htm hmt]

/-! ### One cycle of the calendar -/

def period : ℕ := cycle * 1440

theorem matches_add_period (m : ℕ) : e.matches (m + period) = e.matches m := by
  have hday : (m + period) / 1440 = m / 1440 + cycle := Nat.add_mul_div_right _ _ (by decide)
  have hclock : ∀ c, (m + c * 1440) % 60 = m % 60 ∧ (m + c * 1440) / 60 % 24 = m / 60 % 24 := by
    omega
  have hminute : (m + period) % 60 = m % 60 := (hclock cycle).1
  have hhour : (m + period) / 60 % 24 = m / 60 % 24 := (hclock cycle).2
  obtain ⟨h₁, h₂, h₃⟩ := Calendar.date_add_cycle (m / 1440)
  simp only [ScheduleEntry.matches, ScheduleEntry.matchesDay, hday, hminute, hhour, h₁, h₂, h₃]

theorem matches_add_mul_period (m k : ℕ) : e.matches (m + k * period) = e.matches m := by
  induction k with
  | zero => simp
  | succ k ih => rw [Nat.succ_mul, ← add_assoc, matches_add_period, ih]

/-- The entry fires within the horizon of `c`. -/
def Fires (e : ScheduleEntry) (c : ℕ) : Prop :=
  ∃ m, c ≤ m ∧ m ≤ c + horizonDays * 1440 ∧ e.matches m = true

theorem fires_add_mul_period (c k : ℕ) : Fires e (c + k * period) ↔ Fires e c := by
  constructor
  · rintro ⟨m, hlow, hhigh, hm⟩
    obtain ⟨j, rfl⟩ := Nat.exists_eq_add_of_le hlow
    refine ⟨c + j, Nat.le_add_right _ _, by omega, ?_⟩
    rwa [← matches_add_mul_period (c + j) k, add_right_comm]
  · rintro ⟨m, hlow, hhigh, hm⟩
    exact ⟨m + k * period, by omega, by omega, by rwa [matches_add_mul_period]⟩

/-- No 1464 days of the calendar pass without a fire time. -/
def Gapless (e : ScheduleEntry) : Prop := ∀ c < period, Fires e c

theorem Gapless.fires (h : Gapless e) (c : ℕ) : Fires e c := by
  rw [← Nat.mod_add_div c period, mul_comm, fires_add_mul_period]
  exact h _ (Nat.mod_lt _ (by decide))

/-! ### Accepted schedules -/

theorem parseSchedule_isSome {entries : List ScheduleEntry} {now : ℕ} :
    (parseSchedule entries now).isSome = true ↔ ∀ e ∈ entries, Fires e (candidate now) := by
  have hall : (entries.all fun e => (findNextFire e (candidate now) horizonDays).isSome) = true ↔
      ∀ e ∈ entries, Fires e (candidate now) := by
    simp only [all_eq_true, findNextFire_isSome, Fires]
  rw [← hall]
  unfold parseSchedule
  split <;> simp_all

/-- The first microsecond of the year 9000. -/
def year9000 : ℕ := Calendar.daysBeforeYear 9000 * 86400000000

/-- Once it is accepted, a schedule is accepted at every later time and each entry that is enabled
has a next fire time. -/
def StaysUsable : Prop :=
  ∀ now later, now ≤ later → later < year9000 → (parseSchedule entries now).isSome = true →
    (parseSchedule entries later).isSome = true ∧
      ∀ e ∈ entries, e.enabled = true → ∃ m, nextFire e later = some (some m)

/-- A time at the start of a minute. -/
theorem candidate_mul (c : ℕ) : candidate (c * 60000000) = c := by
  unfold candidate
  omega

/-- **A schedule stays usable exactly when at every minute of the cycle some entry has no fire time
in the next 1464 days, or none of its entries has such a gap anywhere.** -/
theorem stays_usable_iff (entries : List ScheduleEntry) :
    StaysUsable entries ↔
      (∀ c < period, ∃ e ∈ entries, ¬ Fires e c) ∨ ∀ e ∈ entries, Gapless e := by
  constructor
  · intro h
    by_cases hnever : ∀ c < period, ∃ e ∈ entries, ¬ Fires e c
    · exact .inl hnever
    push Not at hnever
    obtain ⟨c₀, hc₀, hall⟩ := hnever
    refine .inr fun e he c hc => ?_
    have haccepted : (parseSchedule entries (c₀ * 60000000)).isSome = true :=
      parseSchedule_isSome.2 (by simpa only [candidate_mul] using hall)
    -- `c` comes again in the second cycle, after `c₀`
    have hlater := (h _ ((c + 1 * period) * 60000000) (Nat.mul_le_mul_right _ (by omega)) ?_
      haccepted).1
    · have hfires := parseSchedule_isSome.1 hlater e he
      rwa [candidate_mul, fires_add_mul_period] at hfires
    · have hend : 2 * period * 60000000 ≤ year9000 := by decide
      generalize year9000 = y at hend
      generalize period = q at hc hend
      omega
  · rintro (hnever | hgapless) now later hle hlater haccepted
    · obtain ⟨e, he, hnot⟩ := hnever (candidate now % period) (Nat.mod_lt _ (by decide))
      refine absurd ?_ hnot
      rw [← fires_add_mul_period _ (candidate now / period), mul_comm, Nat.mod_add_div]
      exact parseSchedule_isSome.1 haccepted e he
    · refine ⟨parseSchedule_isSome.2 fun e he => (hgapless e he).fires _, fun e he henabled => ?_⟩
      have hsome := findNextFire_isSome.2 ((hgapless e he).fires (candidate later))
      obtain ⟨m, hm⟩ := Option.isSome_iff_exists.1 hsome
      exact ⟨m, by simp [nextFire, henabled, hm]⟩

/-! ### A Thursday in a leap year -/

def only {low high : ℕ} (v : ℕ) (h : low ≤ v ∧ v ≤ high) : CronField low high where
  values := [v]
  sorted := pairwise_singleton _ v
  nonempty := cons_ne_nil _ _
  bounded := by simpa using h

/-- `0 0 29 2 4`: midnight of 29 February, if it is a Thursday. -/
def leapThursday : ScheduleEntry where
  cron := "0 0 29 2 4"
  profile := "terraria-tmod"
  minute := only 0 (by decide)
  hour := only 0 (by decide)
  day := only 29 (by decide)
  month := only 2 (by decide)
  weekday := only 4 (by decide)
  operation := "switch"

/-- The first day of a month of the year 2024, in microseconds. -/
def in2024 (month : ℕ) : ℕ :=
  (Calendar.daysBeforeYear 2024 + Calendar.monthStart true month) * 86400000000

/-- Accepted on 1 January 2024 for the sake of 29 February, and refused on 1 March. -/
theorem leapThursday_lapses :
    (parseSchedule [leapThursday] (in2024 1)).isSome = true ∧ in2024 1 ≤ in2024 3 ∧
      in2024 3 < year9000 ∧ parseSchedule [leapThursday] (in2024 3) = none ∧
      ¬ StaysUsable [leapThursday] := by
  have haccepted : (parseSchedule [leapThursday] (in2024 1)).isSome = true := by
    refine parseSchedule_isSome.2 fun e he => ?_
    obtain rfl := mem_singleton.1 he
    exact ⟨candidate (in2024 1) + 59 * 1440, by decide +kernel⟩
  have hdays : ∀ k < 1466, leapThursday.matchesDay (candidate (in2024 3) / 1440 + k) = false := by
    decide +kernel
  have hrefused : parseSchedule [leapThursday] (in2024 3) = none := by
    rw [← Option.not_isSome_iff_eq_none, parseSchedule_isSome]
    intro hfires
    obtain ⟨m, hlow, hhigh, hm⟩ := hfires leapThursday (.head _)
    have hk := hdays (m / 1440 - candidate (in2024 3) / 1440) (by rw [horizonDays] at hhigh; omega)
    rw [Nat.add_sub_cancel' (Nat.div_le_div_right hlow)] at hk
    simp [ScheduleEntry.matches, hk] at hm
  refine ⟨haccepted, by decide, by decide, hrefused, fun h => ?_⟩
  have hlater := (h _ _ (by decide : in2024 1 ≤ in2024 3) (by decide) haccepted).1
  rw [hrefused] at hlater
  cases hlater

/-- Found on 1 January, and found again at its midnight. -/
theorem searchFire_steady_leap :
    searchFire leapThursday (in2024 3 - 86400000000) 60 = .ok (candidate (in2024 3) - 1440) :=
  searchFire_steady _ (in2024 1) _ _ _ (by decide +kernel) (by decide) (by decide) (by decide)

/-- From 1 January on, leap day is the least fire time. -/
theorem finds_least_leap : FindsLeast leapThursday (in2024 1) 60 :=
  (finds_least_iff leapThursday (in2024 1) 60 (by decide)).2
    (.inl ⟨candidate (in2024 3) - 1440, by decide, by decide, by decide +kernel⟩)

/-! ### The last day -/

/-- Midnight of 31 December 9999, in microseconds. -/
def lastMidnight : ℕ := (lastDay - 1) * 86400000000

/-- On the last day of the calendar the search of this day runs over the end. -/
theorem last_day_overflows :
    candidate lastMidnight + 0 * 1440 < lastDay * 1440 ∧
      searchFire leapThursday lastMidnight 0 = .error .overflowError ∧
      ¬ FindsLeast leapThursday lastMidnight 0 := by
  have hraised : searchFire leapThursday lastMidnight 0 = .error .overflowError := by decide +kernel
  refine ⟨by decide, hraised, fun h => ?_⟩
  have hempty : leapThursday.fireTimes (candidate lastMidnight) 0 = ∅ := by
    refine Set.eq_empty_iff_forall_notMem.2 fun m hm => ?_
    have hfound := findNextFire_isSome.2 ⟨m, hm⟩
    revert hfound
    decide +kernel
  have hvalue := h.2.2 hempty
  cases hvalue

end Horizon.Schedule
