/-
**The Gregorian calendar and the texts of its instants.**

Days are counted from the first of January of the year one, instants in microseconds from its
midnight.  The calendar has a cycle of 400 years, which is a whole number of weeks.  An instant is
written in a form whose fields have a fixed width, except that a fraction of a second is written
only if it is not zero; so the order of the texts is the order of the instants up to one case, an
instant inside a second against the second itself.

Main definitions:

* `Calendar.yearOf`, `Calendar.monthOf`, `Calendar.dayOf`, `Calendar.weekday` — the date of a day;
* `Calendar.pad` — a number in a fixed number of digits;
* `Calendar.stamp`, `Calendar.iso` — the texts of a second and of an instant.

Main results:

* `Calendar.date_add_cycle` — dates repeat after 400 years;
* `Calendar.iso_le_iso_iff` — the order of the texts of two instants.
-/

import Mathlib.Tactic

namespace Calendar

open List

/-! ### Years -/

/-- The days before the first of January of a year. -/
def daysBeforeYear (y : ℕ) : ℕ := 365 * (y - 1) + (y - 1) / 4 - (y - 1) / 100 + (y - 1) / 400

def isLeap (y : ℕ) : Bool := y % 4 = 0 && (y % 100 ≠ 0 || y % 400 = 0)

def cycle : ℕ := 146097

/-- The year of a day: cycles, centuries, periods of four years and single years, where the last
century of a cycle and the last year of a period have one more day. -/
def yearOf (n : ℕ) : ℕ :=
  let r := n % cycle
  let century := min (r / 36524) 3
  let s := r - century * 36524
  let period := s / 1461
  let single := min (s % 1461 / 365) 3
  400 * (n / cycle) + 100 * century + 4 * period + single + 1

theorem daysBeforeYear_digits {c h q a : ℕ} (hh : h ≤ 3) (hq : q ≤ 24) (ha : a ≤ 3) :
    daysBeforeYear (400 * c + 100 * h + 4 * q + a + 1) =
      cycle * c + 36524 * h + 1461 * q + 365 * a := by
  have h4 : (400 * c + 100 * h + 4 * q + a) / 4 = 100 * c + 25 * h + q := by omega
  have h100 : (400 * c + 100 * h + 4 * q + a) / 100 = 4 * c + h := by omega
  have h400 : (400 * c + 100 * h + 4 * q + a) / 400 = c := by omega
  rw [daysBeforeYear, Nat.add_sub_cancel, h4, h100, h400, cycle]
  omega

theorem daysBeforeYear_succ {y : ℕ} (hy : 0 < y) :
    daysBeforeYear (y + 1) = daysBeforeYear y + if isLeap y then 366 else 365 := by
  obtain ⟨z, rfl⟩ := Nat.exists_eq_succ_of_ne_zero hy.ne'
  simp only [daysBeforeYear, isLeap, Nat.succ_eq_add_one, Nat.add_sub_cancel, Nat.succ_div,
    Nat.dvd_iff_mod_eq_zero, Bool.and_eq_true, Bool.or_eq_true, decide_eq_true_eq]
  have hle : z / 100 ≤ z / 4 := Nat.div_le_div_left (by decide) (by decide)
  split_ifs <;> omega

theorem daysBeforeYear_mono : Monotone daysBeforeYear := by
  refine monotone_nat_of_le_succ fun y => ?_
  rcases Nat.eq_zero_or_pos y with rfl | hy
  · decide
  · rw [daysBeforeYear_succ hy]
    exact Nat.le_add_right _ _

theorem yearOf_pos (n : ℕ) : 0 < yearOf n := Nat.succ_pos _

/-- A day lies between the first days of its year and of the next one. -/
theorem yearOf_spec (n : ℕ) :
    daysBeforeYear (yearOf n) ≤ n ∧ n < daysBeforeYear (yearOf n + 1) := by
  have hr : n % cycle < 146097 := Nat.mod_lt _ (by decide)
  have hn : cycle * (n / cycle) + n % cycle = n := Nat.div_add_mod _ _
  have hyear : yearOf n = 400 * (n / cycle) + 100 * min (n % cycle / 36524) 3 +
      4 * ((n % cycle - min (n % cycle / 36524) 3 * 36524) / 1461) +
        min ((n % cycle - min (n % cycle / 36524) 3 * 36524) % 1461 / 365) 3 + 1 := rfl
  generalize n / cycle = c at hn hyear
  generalize n % cycle = r at hr hn hyear
  obtain ⟨h, hh⟩ : ∃ h, h = min (r / 36524) 3 := ⟨_, rfl⟩
  rw [← hh] at hyear
  obtain ⟨s, hs⟩ : ∃ s, s = r - h * 36524 := ⟨_, rfl⟩
  rw [← hs] at hyear
  have hcentury : h ≤ 3 ∧ r = 36524 * h + s ∧ s ≤ 36524 ∧ (h < 3 → s < 36524) := by omega
  obtain ⟨hh3, rfl, hs36, hshort⟩ := hcentury
  have hmod : 1461 * (s / 1461) + s % 1461 = s := Nat.div_add_mod _ _
  have hrest : s % 1461 < 1461 := Nat.mod_lt _ (by decide)
  generalize s / 1461 = q at hmod hyear
  generalize s % 1461 = t at hmod hyear hrest
  obtain ⟨a, ha⟩ : ∃ a, a = min (t / 365) 3 := ⟨_, rfl⟩
  rw [← ha] at hyear
  have hsingle : a ≤ 3 ∧ 365 * a ≤ t ∧ t ≤ 365 * a + 365 ∧ (a < 3 → t < 365 * a + 365) := by omega
  obtain ⟨ha3, hlow, hhigh, hordinary⟩ := hsingle
  have hq : q ≤ 24 := by omega
  have hstart := daysBeforeYear_digits (c := c) hh3 hq ha3
  refine ⟨by rw [hyear, hstart]; omega, ?_⟩
  rw [daysBeforeYear_succ (yearOf_pos n), hyear, hstart]
  split
  · omega
  · next hleap =>
    -- The 366th day is that of the fourth year of a period, unless the period ends a century
    -- other than the fourth.
    simp only [isLeap, Bool.and_eq_true, Bool.or_eq_true, decide_eq_true_eq] at hleap
    omega

variable {m n : ℕ} (leap : Bool)

theorem yearOf_mono (h : m ≤ n) : yearOf m ≤ yearOf n := by
  by_contra hlt
  have hle := daysBeforeYear_mono (show yearOf n + 1 ≤ yearOf m from not_le.1 hlt)
  have hm := (yearOf_spec m).1
  have hn := (yearOf_spec n).2
  omega

def dayOfYear (n : ℕ) : ℕ := n - daysBeforeYear (yearOf n)

theorem dayOfYear_lt (n : ℕ) : dayOfYear n < if isLeap (yearOf n) then 366 else 365 := by
  have h := yearOf_spec n
  rw [daysBeforeYear_succ (yearOf_pos n)] at h
  unfold dayOfYear
  omega

theorem dayOfYear_lt_dayOfYear (h : m < n) (hyear : yearOf m = yearOf n) :
    dayOfYear m < dayOfYear n := by
  have hm := (yearOf_spec m).1
  unfold dayOfYear
  rw [hyear] at hm ⊢
  omega

/-! ### Months and days -/

/-- The days of a year before the first of a month. -/
def monthStart (m : ℕ) : ℕ :=
  [0, 31, 59, 90, 120, 151, 181, 212, 243, 273, 304, 334].getD (m - 1) 0 +
    if leap && 2 < m then 1 else 0

/-- The month of a day of the year: the number of months that have begun. -/
def monthIn (d : ℕ) : ℕ := (range' 1 12).countP fun m => monthStart leap m ≤ d

def monthOf (n : ℕ) : ℕ := monthIn (isLeap (yearOf n)) (dayOfYear n)

def dayOf (n : ℕ) : ℕ := dayOfYear n - monthStart (isLeap (yearOf n)) (monthOf n) + 1

def weekday (n : ℕ) : ℕ := n % 7

theorem monthIn_mono {d e : ℕ} (h : d ≤ e) : monthIn leap d ≤ monthIn leap e :=
  countP_mono_left fun _ _ hm => decide_eq_true ((of_decide_eq_true hm).trans h)

theorem monthIn_spec : ∀ leap : Bool, ∀ d < if leap then 366 else 365,
    0 < monthIn leap d ∧ monthIn leap d ≤ 12 ∧ monthStart leap (monthIn leap d) ≤ d ∧
      d < monthStart leap (monthIn leap d) + 31 := by
  decide +kernel

theorem monthOf_spec (n : ℕ) : 0 < monthOf n ∧ monthOf n ≤ 12 ∧
    monthStart (isLeap (yearOf n)) (monthOf n) ≤ dayOfYear n ∧ dayOf n ≤ 31 := by
  obtain ⟨hpos, hle, hstart, hend⟩ := monthIn_spec (isLeap (yearOf n)) _ (dayOfYear_lt n)
  refine ⟨hpos, hle, hstart, ?_⟩
  unfold dayOf monthOf
  omega

/-- Of two days in one month the later one has the greater number. -/
theorem dayOf_lt_dayOf (h : m < n) (hyear : yearOf m = yearOf n) (hmonth : monthOf m = monthOf n) :
    dayOf m < dayOf n := by
  have hlt := dayOfYear_lt_dayOfYear h hyear
  have hstart := (monthOf_spec m).2.2.1
  unfold dayOf
  rw [hyear, hmonth] at hstart ⊢
  omega

theorem monthOf_mono (h : m ≤ n) (hyear : yearOf m = yearOf n) : monthOf m ≤ monthOf n := by
  rcases h.eq_or_lt with rfl | h
  · exact le_rfl
  · unfold monthOf
    rw [hyear]
    exact monthIn_mono _ (dayOfYear_lt_dayOfYear h hyear).le

/-! ### The cycle -/

theorem yearOf_add_cycle (n : ℕ) : yearOf (n + cycle) = yearOf n + 400 := by
  simp only [yearOf, Nat.add_mod_right, Nat.add_div_right n (show 0 < cycle by decide)]
  omega

theorem dayOfYear_add_cycle (n : ℕ) : dayOfYear (n + cycle) = dayOfYear n := by
  have hdays : daysBeforeYear (yearOf n + 400) = daysBeforeYear (yearOf n) + cycle := by
    have hpos := yearOf_pos n
    unfold daysBeforeYear cycle
    omega
  rw [dayOfYear, yearOf_add_cycle, hdays, dayOfYear, Nat.add_sub_add_right]

theorem isLeap_add_cycle (y : ℕ) : isLeap (y + 400) = isLeap y := by
  have h4 : (y + 400) % 4 = y % 4 := by omega
  have h100 : (y + 400) % 100 = y % 100 := by omega
  rw [isLeap, h4, h100, Nat.add_mod_right, isLeap]

/-- **Dates repeat after 400 years**, weekdays included. -/
theorem date_add_cycle (n : ℕ) : monthOf (n + cycle) = monthOf n ∧
    dayOf (n + cycle) = dayOf n ∧ weekday (n + cycle) = weekday n := by
  have hmonth : monthOf (n + cycle) = monthOf n := by
    rw [monthOf, yearOf_add_cycle, isLeap_add_cycle, dayOfYear_add_cycle, monthOf]
  refine ⟨hmonth, ?_, ?_⟩
  · rw [dayOf, yearOf_add_cycle, isLeap_add_cycle, dayOfYear_add_cycle, hmonth, dayOf]
  · unfold weekday cycle
    omega

/-! ### Texts of a fixed width -/

/-- A number in `w` decimal digits. -/
def pad : ℕ → ℕ → List ℕ
  | 0, _ => []
  | w + 1, n => pad w (n / 10) ++ [0x30 + n % 10]

@[simp] theorem length_pad (w n : ℕ) : (pad w n).length = w := by
  induction w generalizing n with
  | zero => rfl
  | succ w ih => rw [pad, length_append, ih, length_singleton]

/-- Texts that begin with fields of one width are compared field by field. -/
theorem append_lt_append_iff {a b u v : List ℕ} (h : a.length = b.length) :
    a ++ u < b ++ v ↔ a < b ∨ a = b ∧ u < v := by
  induction a generalizing b with
  | nil =>
    obtain rfl := length_eq_zero_iff.1 h.symm
    simp
  | cons x a ih =>
    cases b with
    | nil => simp at h
    | cons y b =>
      rw [cons_append, cons_append, cons_lt_cons_iff, cons_lt_cons_iff,
        ih (Nat.succ.inj h), cons.injEq]
      tauto

theorem pad_lt_pad {w m n : ℕ} (hn : n < 10 ^ w) (h : m < n) : pad w m < pad w n := by
  induction w generalizing m n with
  | zero => omega
  | succ w ih =>
    rw [pad, pad, append_lt_append_iff (by simp)]
    have hlt : n / 10 < 10 ^ w := by
      omega
    rcases lt_or_ge (m / 10) (n / 10) with hdiv | hdiv
    · exact .inl (ih hlt hdiv)
    · have hdiv : m / 10 = n / 10 := by omega
      rw [hdiv, cons_lt_cons_iff]
      exact .inr ⟨rfl, .inl (by omega)⟩

theorem pad_lt_pad_iff {w m n : ℕ} (hm : m < 10 ^ w) (hn : n < 10 ^ w) :
    pad w m < pad w n ↔ m < n := by
  refine ⟨fun h => ?_, pad_lt_pad hn⟩
  by_contra hle
  rcases (not_lt.1 hle).eq_or_lt with rfl | hlt
  · exact lt_irrefl _ h
  · exact lt_irrefl _ (h.trans (pad_lt_pad hm hlt))

/-! ### Instants -/

def lastDay : ℕ := 3652059

/-- A field that is followed by a separator and other fields. -/
def field (w n separator : ℕ) (rest : List ℕ) : List ℕ := pad w n ++ separator :: rest

theorem field_lt_field {w m n separator : ℕ} {u v : List ℕ} (hn : n < 10 ^ w)
    (h : m < n ∨ m = n ∧ u < v) : field w m separator u < field w n separator v := by
  rw [field, field, append_lt_append_iff (by simp)]
  rcases h with h | ⟨rfl, h⟩
  · exact .inl (pad_lt_pad hn h)
  · exact .inr ⟨rfl, cons_lt_cons_iff.2 (.inr ⟨rfl, h⟩)⟩

/-- `YYYY-MM-DDTHH:MM:SS`. -/
def stamp (n : ℕ) : List ℕ :=
  let day := n / 86400
  field 4 (yearOf day) 0x2D <| field 2 (monthOf day) 0x2D <| field 2 (dayOf day) 0x54 <|
    field 2 (n % 86400 / 3600) 0x3A <| field 2 (n % 3600 / 60) 0x3A <| pad 2 (n % 60)

@[simp] theorem length_stamp (n : ℕ) : (stamp n).length = 19 := by
  simp [stamp, field]

theorem yearOf_lt (h : n < lastDay) : yearOf n < 10000 := by
  by_contra hle
  have hdays := daysBeforeYear_mono (not_lt.1 hle)
  have hn := (yearOf_spec n).1
  have hlast : daysBeforeYear 10000 = lastDay := by decide
  omega

/-- **Later seconds have later texts.** -/
theorem stamp_lt_stamp (hn : n < lastDay * 86400) (h : m < n) : stamp m < stamp n := by
  have hday : n / 86400 < lastDay := by omega
  have hmonth := monthOf_spec (n / 86400)
  have htime : field 2 (m % 86400 / 3600) 0x3A (field 2 (m % 3600 / 60) 0x3A (pad 2 (m % 60))) <
      field 2 (n % 86400 / 3600) 0x3A (field 2 (n % 3600 / 60) 0x3A (pad 2 (n % 60))) ∨
        m / 86400 < n / 86400 := by
    rcases lt_or_ge (m / 86400) (n / 86400) with hlt | hle
    · exact .inr hlt
    · refine .inl (field_lt_field (by omega) ?_)
      rcases lt_or_ge (m % 86400 / 3600) (n % 86400 / 3600) with hlt | hle
      · exact .inl hlt
      · refine .inr ⟨by omega, field_lt_field (by omega) ?_⟩
        rcases lt_or_ge (m % 3600 / 60) (n % 3600 / 60) with hlt | hle
        · exact .inl hlt
        · exact .inr ⟨by omega, pad_lt_pad (by omega) (by omega)⟩
  refine field_lt_field (yearOf_lt hday) ?_
  rcases (yearOf_mono (Nat.div_le_div_right h.le : m / 86400 ≤ n / 86400)).lt_or_eq with
    hyear | hyear
  · exact .inl hyear
  refine .inr ⟨hyear, field_lt_field (by omega) ?_⟩
  rcases (monthOf_mono (Nat.div_le_div_right h.le) hyear).lt_or_eq with hlt | heq
  · exact .inl hlt
  refine .inr ⟨heq, field_lt_field (by omega) ?_⟩
  rcases lt_or_ge (m / 86400) (n / 86400) with hlt | hle
  · exact .inl (dayOf_lt_dayOf hlt hyear heq)
  · have hsame : m / 86400 = n / 86400 := le_antisymm (Nat.div_le_div_right h.le) hle
    exact .inr ⟨by rw [hsame], htime.resolve_right (by omega)⟩

/-- `isoformat` with `Z` for UTC: the microseconds are written only if there are any. -/
def iso (n : ℕ) : List ℕ :=
  stamp (n / 1000000) ++ ((if n % 1000000 = 0 then [] else 0x2E :: pad 6 (n % 1000000)) ++ [0x5A])

def limit : ℕ := lastDay * 86400 * 1000000

theorem fraction_lt_iff (m n : ℕ) (hm : m < 1000000) (hn : n < 1000000) :
    ((if m = 0 then [] else 0x2E :: pad 6 m) ++ [0x5A] : List ℕ) <
        (if n = 0 then [] else 0x2E :: pad 6 n) ++ [0x5A] ↔
      m ≠ 0 ∧ (n = 0 ∨ m < n) := by
  by_cases hm0 : m = 0 <;> by_cases hn0 : n = 0
  · simp [hm0, hn0]
  · simp [hm0, hn0, cons_lt_cons_iff]
  · simp [hm0, hn0, cons_lt_cons_iff]
  · rw [if_neg hm0, if_neg hn0, cons_append, cons_append, cons_lt_cons_iff,
      append_lt_append_iff (by simp), pad_lt_pad_iff (by omega) (by omega)]
    simp [hm0, hn0]

theorem iso_lt_iso_iff (hm : m < limit) (hn : n < limit) :
    iso m < iso n ↔ m / 1000000 < n / 1000000 ∨ m / 1000000 = n / 1000000 ∧
      m % 1000000 ≠ 0 ∧ (n % 1000000 = 0 ∨ m % 1000000 < n % 1000000) := by
  rw [iso, iso, append_lt_append_iff (by simp),
    fraction_lt_iff _ _ (Nat.mod_lt _ (by decide)) (Nat.mod_lt _ (by decide))]
  have hstamp : ∀ {a b : ℕ}, a < lastDay * 86400 → b < lastDay * 86400 →
      (stamp a < stamp b ↔ a < b) := by
    intro a b ha hb
    refine ⟨fun h => ?_, stamp_lt_stamp hb⟩
    by_contra hle
    rcases (not_lt.1 hle).eq_or_lt with rfl | hlt
    · exact lt_irrefl _ h
    · exact lt_irrefl _ (h.trans (stamp_lt_stamp ha hlt))
  have hms : m / 1000000 < lastDay * 86400 := by
    have h : m < lastDay * 86400 * 1000000 := hm
    omega
  have hns : n / 1000000 < lastDay * 86400 := by
    have h : n < lastDay * 86400 * 1000000 := hn
    omega
  have hinj : stamp (m / 1000000) = stamp (n / 1000000) ↔ m / 1000000 = n / 1000000 := by
    refine ⟨fun h => ?_, fun h => by rw [h]⟩
    rcases lt_trichotomy (m / 1000000) (n / 1000000) with hlt | heq | hlt
    · exact absurd (h ▸ (hstamp hms hns).2 hlt) (lt_irrefl _)
    · exact heq
    · exact absurd (h ▸ (hstamp hns hms).2 hlt) (lt_irrefl _)
  rw [hstamp hms hns, hinj]

/-- **The text of an instant is at most that of another** exactly when the instant is, except that
an instant inside a second comes before the whole second. -/
theorem iso_le_iso_iff (hm : m < limit) (hn : n < limit) :
    iso m ≤ iso n ↔ (m ≤ n ∧ ¬ (m / 1000000 = n / 1000000 ∧ m % 1000000 = 0 ∧ n % 1000000 ≠ 0)) ∨
      (m / 1000000 = n / 1000000 ∧ m % 1000000 ≠ 0 ∧ n % 1000000 = 0) := by
  rw [← not_lt, iso_lt_iso_iff hn hm]
  omega

end Calendar
