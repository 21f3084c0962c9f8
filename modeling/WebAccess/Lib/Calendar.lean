/-
The Gregorian calendar over the integers: leap years, the days of a month, the dates there are, and the
number of a day. Years are counted from the March of the year before where the month is January or
February, so that the leap day is the last day of a year; day 0 is the first of January 1970.
-/
import Mathlib.Tactic.IntervalCases

namespace WebAccess.Calendar

/-! ## Dates -/

def IsLeap (y : Int) : Prop := y % 4 = 0 ∧ (y % 100 ≠ 0 ∨ y % 400 = 0)

instance (y : Int) : Decidable (IsLeap y) := inferInstanceAs (Decidable (_ ∧ _))

/-- The days of a month; there are none where there is no such month. -/
def daysIn (y : Int) : Nat → Nat
  | 2 => if IsLeap y then 29 else 28
  | 4 | 6 | 9 | 11 => 30
  | 1 | 3 | 5 | 7 | 8 | 10 | 12 => 31
  | _ => 0

/-- There is such a date. -/
def Valid (y : Int) (m d : Nat) : Prop := 1 ≤ d ∧ d ≤ daysIn y m

instance (y : Int) (m d : Nat) : Decidable (Valid y m d) := inferInstanceAs (Decidable (_ ∧ _))

variable {y y' : Int} {m d m' d' : Nat}

theorem Valid.month (h : Valid y m d) : 1 ≤ m ∧ m ≤ 12 := by
  obtain ⟨hpos, hle⟩ := h
  unfold daysIn at hle
  split at hle <;> omega

theorem Valid.day (h : Valid y m d) : 1 ≤ d ∧ d ≤ 31 := by
  obtain ⟨hpos, hle⟩ := h
  unfold daysIn at hle
  split at hle
  · split at hle <;> omega
  all_goals omega

/-! ## Years from March -/

/-- The year that starts in March and has the month in it. -/
def marchYear (y : Int) (m : Nat) : Int := if m ≤ 2 then y - 1 else y

/-- The month counted from March, which is 0. -/
def marchMonth (m : Nat) : Nat := (m + 9) % 12

/-- The days before the first of March of a year, from the March of the year 0. -/
def yearStart (y : Int) : Int := 365 * y + y / 4 - y / 100 + y / 400

/-- The days before a month, in a year that starts in March. -/
def monthStart (mp : Nat) : Nat := (153 * mp + 2) / 5

theorem yearStart_succ (y : Int) : yearStart (y + 1) = yearStart y + if IsLeap (y + 1) then 366 else 365 := by
  by_cases h : IsLeap (y + 1)
  · rw [if_pos h]
    unfold IsLeap at h
    unfold yearStart
    omega
  · rw [if_neg h]
    unfold IsLeap at h
    unfold yearStart
    omega

theorem yearStart_mono (h : y ≤ y') : yearStart y ≤ yearStart y' := by
  unfold yearStart
  omega

/-- The day of a year that starts in March, from 0. -/
def dayOfYear (m d : Nat) : Int := monthStart (marchMonth m) + d - 1

theorem dayOfYear_bounds (h : Valid y m d) :
    0 ≤ dayOfYear m d ∧ dayOfYear m d < if IsLeap (marchYear y m + 1) then 366 else 365 := by
  have hleast : (365 : Int) ≤ if IsLeap (marchYear y m + 1) then 366 else 365 := by split <;> omega
  obtain ⟨hpos, hle⟩ := id h
  obtain ⟨hm, hm'⟩ := h.month
  by_cases hfeb : m = 2
  · subst hfeb
    simp only [daysIn, marchYear, dayOfYear, monthStart, marchMonth, le_refl, if_true, Int.sub_add_cancel] at hle ⊢
    by_cases hleap : IsLeap y <;> simp only [hleap, if_true, if_false] at hle ⊢ <;> omega
  · refine ⟨?_, Int.lt_of_lt_of_le ?_ hleast⟩ <;> simp only [dayOfYear, monthStart, marchMonth]
    · omega
    · interval_cases m <;> simp only [daysIn] at hle <;> omega

/-- In one such year, a later month is later. -/
theorem dayOfYear_lt (h : Valid y m d) (h' : 1 ≤ d') (hm : marchMonth m < marchMonth m') :
    dayOfYear m d < dayOfYear m' d' := by
  obtain ⟨hpos, hle⟩ := id h
  obtain ⟨hlow, hhigh⟩ := h.month
  simp only [dayOfYear, monthStart, marchMonth] at hm ⊢
  interval_cases m <;> simp only [daysIn] at hle <;> omega

/-- The month, counted from March, that a day of such a year is in. -/
def monthOfDay (doy : Nat) : Nat := (5 * doy + 2) / 153

variable {doy : Nat}

theorem monthOfDay_bounds (h : doy ≤ 365) : monthOfDay doy ≤ 11 ∧ monthStart (monthOfDay doy) ≤ doy ∧
    doy < monthStart (monthOfDay doy) + 31 := by
  unfold monthOfDay monthStart
  omega

/-- Every day of a year that starts in March is one of its dates, where the last has its leap day. -/
theorem date_of_day (h : doy ≤ 365) (hleap : doy = 365 → IsLeap (y + 1))
    (hm : m = if monthOfDay doy < 10 then monthOfDay doy + 3 else monthOfDay doy - 9)
    (hy : y' = if m ≤ 2 then y + 1 else y) :
    Valid y' m (doy - monthStart (monthOfDay doy) + 1) ∧ marchYear y' m = y ∧
      dayOfYear m (doy - monthStart (monthOfDay doy) + 1) = doy := by
  obtain ⟨hmonth, hstart, hend⟩ := monthOfDay_bounds h
  have hmarch : marchMonth m = monthOfDay doy := by
    rw [hm, marchMonth]
    split <;> omega
  refine ⟨⟨Nat.le_add_left .., ?_⟩, ?_, ?_⟩
  · have hdays : monthOfDay doy = 11 → doy - monthStart (monthOfDay doy) + 1 ≤ 29 ∧
        (doy - monthStart (monthOfDay doy) + 1 = 29 → doy = 365) := by
      unfold monthOfDay monthStart
      omega
    have hshort : monthOfDay doy = 1 ∨ monthOfDay doy = 3 ∨ monthOfDay doy = 6 ∨ monthOfDay doy = 8 →
        doy - monthStart (monthOfDay doy) + 1 ≤ 30 := by
      unfold monthOfDay monthStart
      omega
    have hlong : doy - monthStart (monthOfDay doy) + 1 ≤ 31 := by omega
    generalize doy - monthStart (monthOfDay doy) + 1 = d at *
    generalize monthOfDay doy = mp at *
    clear hmarch hstart hend
    by_cases hfeb : mp = 11
    · obtain ⟨hle, hlast⟩ := hdays hfeb
      obtain rfl : m = 2 := by simpa [hfeb] using hm
      obtain rfl : y' = y + 1 := hy
      rw [daysIn]
      split
      · exact hle
      · rename_i hnot
        have hne : d ≠ 29 := fun hd => hnot (hleap (hlast hd))
        omega
    · interval_cases mp <;> simp only [Nat.reduceLT, Nat.reduceAdd, Nat.reduceSub, if_true,
        if_false] at hm <;> subst hm <;>
        simp only [daysIn] <;> omega
  · rw [hy, marchYear]
    split <;> omega
  · rw [dayOfYear, hmarch]
    omega

/-! ## Day numbers -/

/-- The number of a day. -/
def dayNumber (y : Int) (m d : Nat) : Int := yearStart (marchYear y m) + dayOfYear m d - 719468

/-- Dates in the order of years, months and days. -/
def Before (y : Int) (m d : Nat) (y' : Int) (m' d' : Nat) : Prop :=
  y < y' ∨ y = y' ∧ (m < m' ∨ m = m' ∧ d < d')

theorem dayNumber_lt (h : Valid y m d) (h' : Valid y' m' d') (hbefore : Before y m d y' m' d') :
    dayNumber y m d < dayNumber y' m' d' := by
  obtain ⟨hdoy, hdoy'⟩ := dayOfYear_bounds h
  obtain ⟨hfrom, -⟩ := dayOfYear_bounds h'
  have hmonth := h.month
  have hmonth' := h'.month
  unfold dayNumber
  rcases lt_trichotomy (marchYear y m) (marchYear y' m') with hyear | hyear | hyear
  · have hnext := yearStart_succ (marchYear y m)
    have hstart := yearStart_mono (Int.add_one_le_of_lt hyear)
    omega
  · have hlater : dayOfYear m d < dayOfYear m' d' := by
      by_cases hm : marchMonth m < marchMonth m'
      · exact dayOfYear_lt h h'.1 hm
      · unfold marchYear at hyear
        unfold marchMonth at hm
        unfold Before at hbefore
        obtain ⟨rfl, hd⟩ : m = m' ∧ d < d' := by split at hyear <;> split at hyear <;> omega
        unfold dayOfYear
        omega
    rw [hyear]
    omega
  · unfold marchYear at hyear
    unfold Before at hbefore
    split at hyear <;> split at hyear <;> omega

theorem before_or (y : Int) (m d : Nat) (y' : Int) (m' d' : Nat) :
    Before y m d y' m' d' ∨ (y, m, d) = (y', m', d') ∨ Before y' m' d' y m d := by
  simp only [Before, Prod.mk.injEq]
  omega

/-- Dates are ordered as their day numbers. -/
theorem dayNumber_inj (h : Valid y m d) (h' : Valid y' m' d') (heq : dayNumber y m d = dayNumber y' m' d') :
    (y, m, d) = (y', m', d') := by
  rcases before_or y m d y' m' d' with hb | hsame | hb
  · exact absurd heq (ne_of_lt (dayNumber_lt h h' hb))
  · exact hsame
  · exact absurd heq (ne_of_gt (dayNumber_lt h' h hb))

/-! ## Instants -/

/-- The seconds since 1970 of a time of day on a date. -/
def seconds (y : Int) (m d h mi s : Nat) : Int := dayNumber y m d * 86400 + h * 3600 + mi * 60 + s

/-- Instants are in order as their fields are, with something less than a second to decide last. -/
theorem seconds_lt_iff {h mi s h' mi' s' : Nat} {P : Prop} (hdate : Valid y m d) (hdate' : Valid y' m' d')
    (htime : h ≤ 23 ∧ mi ≤ 59 ∧ s ≤ 59) (htime' : h' ≤ 23 ∧ mi' ≤ 59 ∧ s' ≤ 59) :
    (seconds y m d h mi s < seconds y' m' d' h' mi' s' ∨ seconds y m d h mi s = seconds y' m' d' h' mi' s' ∧ P) ↔
      y < y' ∨ y = y' ∧ (m < m' ∨ m = m' ∧ (d < d' ∨ d = d' ∧ (h < h' ∨ h = h' ∧ (mi < mi' ∨ mi = mi' ∧
        (s < s' ∨ s = s' ∧ P))))) := by
  unfold seconds
  -- The two dates are in order one way or the other, or they are one date and the times of day decide.
  rcases before_or y m d y' m' d' with hb | heq | hb
  · have hlt := dayNumber_lt hdate hdate' hb
    unfold Before at hb
    omega
  · cases heq
    by_cases hP : P
    · simp only [hP, lt_irrefl, false_or, true_and, and_true]
      omega
    · simp only [hP, lt_irrefl, false_or, true_and, and_false, or_false]
      omega
  · have hlt := dayNumber_lt hdate' hdate hb
    unfold Before at hb
    omega

end WebAccess.Calendar
