import GreenTurtle.FixedWidth
import Mathlib.Tactic

/-!
# Days in local time

`System::GetSecondsDiffDays`.  The two times are taken back to the beginning of
their local days, and the difference of the results is divided by the length of
a day.  The beginning of a day is computed with the daylight-saving flag of the
original time, so it is off when the flag changes during the day, and the
difference of two beginnings is off when the flags differ.
-/

namespace GreenTurtle.LocalTime

open FixedWidth

/-- The local time is standard time or daylight-saving time.  The clocks are
changed by less than a day. -/
structure ZoneRule where
  standard : ℤ
  daylight : ℤ
  isDst : ℤ → Bool
  change_lt : |daylight - standard| < 86400

/-- The UTC offset that belongs to a flag. -/
def ZoneRule.offset (rule : ZoneRule) (isdst : Bool) : ℤ :=
  if isdst then rule.daylight else rule.standard

/-- Broken-down time.  The day number stands for year, month and day of the
month. -/
structure Tm where
  day : ℤ
  hour : ℤ
  min : ℤ
  sec : ℤ
  isdst : Bool

def localtime (rule : ZoneRule) (s : ℤ) : Tm :=
  let isdst := rule.isDst s
  let clock := s + rule.offset isdst
  { day := clock / 86400
    hour := clock % 86400 / 3600
    min := clock % 3600 / 60
    sec := clock % 60
    isdst := isdst }

/-- The flag decides which offset is taken off. -/
def mktime (rule : ZoneRule) (tm : Tm) : ℤ :=
  tm.day * 86400 + tm.hour * 3600 + tm.min * 60 + tm.sec -
    rule.offset tm.isdst

theorem mktime_localtime (rule : ZoneRule) (s : ℤ) :
    mktime rule (localtime rule s) = s := by
  simp only [mktime, localtime]
  generalize rule.offset (rule.isDst s) = offset
  omega

def getSecondsDiffDays (rule : ZoneRule) (s1 s2 : ℤ) : ℤ :=
  let tm1 := { localtime rule s1 with hour := 0, min := 0, sec := 0 }
  let tm2 := { localtime rule s2 with hour := 0, min := 0, sec := 0 }
  toInt32 ((mktime rule tm2 - mktime rule tm1).tdiv (3600 * 24))

def calendarDay (rule : ZoneRule) (s : ℤ) : ℤ := (localtime rule s).day

/-- The offset in force. -/
def offsetAt (rule : ZoneRule) (s : ℤ) : ℤ := rule.offset (rule.isDst s)

/-! ## The division -/

theorem ZoneRule.offset_sub_lt (rule : ZoneRule) (first second : Bool) :
    |rule.offset second - rule.offset first| < 86400 := by
  have hchange := rule.change_lt
  rw [abs_lt] at hchange ⊢
  cases first <;> cases second <;> simp only [ZoneRule.offset] <;>
    constructor <;> simp <;> omega

/-- The quotient is rounded towards zero. -/
theorem tdiv_day (x : ℤ) :
    x.tdiv 86400 = if 0 ≤ x then x / 86400 else -(-x / 86400) := by
  split
  next hnonneg => exact Int.tdiv_eq_ediv_of_nonneg hnonneg
  next hneg =>
    rw [← Int.tdiv_eq_ediv_of_nonneg (by omega), Int.neg_tdiv, neg_neg]

/-- So the number of days is off by one when the change of the offset takes
away from the distance. -/
theorem toInt32_tdiv_day_iff
    {days change : ℤ} (hchange : |change| < 86400) :
    toInt32 ((days * 86400 - change).tdiv 86400) = days ↔
      (0 < days → change ≤ 0) ∧ (days < 0 → 0 ≤ change) ∧
        -2147483648 ≤ days ∧ days < 2147483648 := by
  rw [abs_lt] at hchange
  rw [tdiv_day, toInt32, Int.bmod_def]
  split <;> split <;> omega

theorem getSecondsDiffDays_eq (rule : ZoneRule) (s1 s2 : ℤ) :
    getSecondsDiffDays rule s1 s2 =
      toInt32
        (((calendarDay rule s2 - calendarDay rule s1) * 86400 -
          (offsetAt rule s2 - offsetAt rule s1)).tdiv 86400) := by
  unfold getSecondsDiffDays
  simp only [mktime, calendarDay, offsetAt, localtime]
  congr 2
  ring

/-! ## The result -/

/-- Zero for times of one day, and the distance of the days otherwise. -/
def CountsDays (rule : ZoneRule) (s1 s2 : ℤ) : Prop :=
  (getSecondsDiffDays rule s1 s2 = 0 ↔
      calendarDay rule s1 = calendarDay rule s2) ∧
    (calendarDay rule s1 ≠ calendarDay rule s2 →
      getSecondsDiffDays rule s1 s2 =
        calendarDay rule s2 - calendarDay rule s1)

theorem countsDays_iff (rule : ZoneRule) (s1 s2 : ℤ) :
    CountsDays rule s1 s2 ↔
      getSecondsDiffDays rule s1 s2 =
        calendarDay rule s2 - calendarDay rule s1 := by
  unfold CountsDays
  omega

/-- The days are counted right exactly when the offset is not larger on the
later day, and the distance is an `int`. -/
theorem getSecondsDiffDays_counts_iff (rule : ZoneRule) (s1 s2 : ℤ) :
    CountsDays rule s1 s2 ↔
      (calendarDay rule s1 < calendarDay rule s2 →
          offsetAt rule s2 ≤ offsetAt rule s1) ∧
        (calendarDay rule s2 < calendarDay rule s1 →
          offsetAt rule s1 ≤ offsetAt rule s2) ∧
        -2147483648 ≤ calendarDay rule s2 - calendarDay rule s1 ∧
        calendarDay rule s2 - calendarDay rule s1 < 2147483648 := by
  have hchange : |offsetAt rule s2 - offsetAt rule s1| < 86400 :=
    rule.offset_sub_lt _ _
  rw [countsDays_iff, getSecondsDiffDays_eq, toInt32_tdiv_day_iff hchange]
  simp only [sub_pos, sub_neg, sub_nonpos, sub_nonneg]

/-- Greenwich in 2014, with an hour of daylight-saving time that begins on
30 March at one o'clock. -/
def greenwich : ZoneRule where
  standard := 0
  daylight := 3600
  isDst := fun s => 1396141200 ≤ s
  change_lt := by decide

/-- Noon of 29 March and noon of 30 March count as one day. -/
theorem getSecondsDiffDays_spring :
    calendarDay greenwich 1396177200 - calendarDay greenwich 1396094400 = 1 ∧
      getSecondsDiffDays greenwich 1396094400 1396177200 = 0 := by
  decide

end GreenTurtle.LocalTime
