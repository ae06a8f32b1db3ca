import PcsSim.Lib.Gregorian

/-!
# The difference of two dates

The year of the formula begins in March, so that the leap day ends it.
-/

namespace Misc

open Gregorian

/-- A result of `int`; an overflow is undefined. -/
def int (n : ℤ) : Option ℤ := if -2 ^ 31 ≤ n ∧ n < 2 ^ 31 then some n else none

/-- `d1` and `d2` of `misc_day_diff`. -/
def dayNumber (year month day : ℤ) : Option ℤ := do
  let m := (← int (month + 9)).tmod 12
  let y ← int (year - m.tdiv 10)
  let d ← int (365 * y)
  let d ← int (d + y.tdiv 4)
  let d ← int (d - y.tdiv 100)
  let d ← int (d + y.tdiv 400)
  let days ← int (m * 306)
  let days ← int (days + 5)
  let d ← int (d + days.tdiv 10)
  int (d + (← int (day - 1)))

def miscDayDiff (yearStart monthStart dayStart yearEnd monthEnd dayEnd : ℤ) : Option ℤ := do
  let d1 ← dayNumber yearStart monthStart dayStart
  let d2 ← dayNumber yearEnd monthEnd dayEnd
  int (d2 - d1)

def dayDiff (start end' : Date) : Option ℤ :=
  miscDayDiff start.year start.month start.day end'.year end'.month end'.day

/-- The leap days up to a year. -/
def leapDays (year : ℤ) : ℤ := year / 4 - year / 100 + year / 400

/-- The formula in integers, with the quotients rounded down. -/
def count (year month day : ℤ) : ℤ :=
  let m := (month + 9) % 12
  let y := year - m / 10
  365 * y + leapDays y + (m * 306 + 5) / 10 + (day - 1)

/-- The years in which nothing overflows. -/
def InRange (date : Date) : Prop := 1 ≤ date.year ∧ date.year ≤ 5000000

instance (date : Date) : Decidable (InRange date) := inferInstanceAs (Decidable (_ ∧ _))

theorem int_of_mem {n : ℤ} (h : -2 ^ 31 ≤ n ∧ n < 2 ^ 31) : int n = some n := if_pos h

theorem int_bind {n : ℤ} (h : -2 ^ 31 ≤ n ∧ n < 2 ^ 31) (f : ℤ → Option ℤ) :
    (int n >>= f) = f n := by
  rw [int_of_mem h]
  rfl

theorem leapDays_step (year : ℤ) :
    leapDays year = leapDays (year - 1) + if IsLeap year then 1 else 0 := by
  simp only [leapDays, IsLeap]
  split_ifs with h
  · omega
  · omega

theorem count_monthEnd {year month : ℤ} (h : 1 ≤ month ∧ month < 12) :
    count year (month + 1) 1 = count year month (monthLength year month) + 1 := by
  obtain rfl | hmonth := eq_or_ne month 2
  · have hleap := leapDays_step year
    simp [count, monthLength]
    split_ifs at hleap ⊢ <;> omega
  have hcases : month = 1 ∨ month = 3 ∨ month = 4 ∨ month = 5 ∨ month = 6 ∨
      month = 7 ∨ month = 8 ∨ month = 9 ∨ month = 10 ∨ month = 11 := by omega
  rcases hcases with rfl | rfl | rfl | rfl | rfl | rfl | rfl | rfl | rfl | rfl <;>
  · simp [count, monthLength]
    ring

theorem count_yearEnd (year : ℤ) :
    count (year + 1) 1 1 = count year 12 (monthLength year 12) + 1 := by
  simp [count, monthLength]
  ring

theorem count_next (date : Date) :
    count date.next.year date.next.month date.next.day =
      count date.year date.month date.day + 1 := by
  have hmonth := date.month_mem
  rw [Date.next]
  split_ifs with hday
  · simp only [count]
    ring
  have hlast : date.day = monthLength date.year date.month :=
    le_antisymm date.day_mem.2 (not_lt.mp hday)
  rw [hlast, Date.nextMonth]
  split_ifs with hyear
  · exact count_monthEnd ⟨hmonth.1, hyear⟩
  · have hdecember : date.month = 12 := by omega
    rw [hdecember]
    exact count_yearEnd date.year

theorem monthLength_le (year month : ℤ) : monthLength year month ≤ 31 := by
  rw [monthLength]
  split_ifs <;> decide

theorem count_mem (month : ℤ) {year day : ℤ} (hyear : 1 ≤ year ∧ year ≤ 5000000)
    (hday : 1 ≤ day ∧ day ≤ 31) :
    0 ≤ count year month day ∧ count year month day < 2 ^ 31 := by
  simp only [count, leapDays]
  omega

theorem dayNumber_eq {year month day : ℤ} (hyear : 1 ≤ year ∧ year ≤ 5000000)
    (hmonth : 1 ≤ month ∧ month ≤ 12) (hday : 1 ≤ day ∧ day ≤ 31) :
    dayNumber year month day = some (count year month day) := by
  have hm : 0 ≤ (month + 9) % 12 ∧ (month + 9) % 12 < 12 := by omega
  rw [dayNumber, int_bind (by omega), Int.tmod_eq_emod_of_nonneg (by omega), count]
  generalize (month + 9) % 12 = m at hm ⊢
  dsimp only
  have hy : 0 ≤ year - m / 10 ∧ year - m / 10 ≤ 5000000 := by omega
  rw [Int.tdiv_eq_ediv_of_nonneg hm.1, int_bind (by omega)]
  generalize year - m / 10 = y at hy ⊢
  rw [Int.tdiv_eq_ediv_of_nonneg hy.1, Int.tdiv_eq_ediv_of_nonneg hy.1,
    Int.tdiv_eq_ediv_of_nonneg hy.1, int_bind (by omega), int_bind (by omega),
    int_bind (by omega), int_bind (by omega), int_bind (by omega), int_bind (by omega),
    Int.tdiv_eq_ediv_of_nonneg (by omega), int_bind (by omega), int_bind (by omega),
    int_of_mem (by omega), leapDays]
  congr 1
  ring

section Dates

variable {start end' : Date}

theorem dayDiff_eq (hstart : InRange start) (hend : InRange end') :
    dayDiff start end' = some (count end'.year end'.month end'.day -
      count start.year start.month start.day) := by
  have hday := start.day_mem
  have hday' := end'.day_mem
  have hlength := monthLength_le start.year start.month
  have hlength' := monthLength_le end'.year end'.month
  have hcount := count_mem start.month hstart ⟨hday.1, by omega⟩
  have hcount' := count_mem end'.month hend ⟨hday'.1, by omega⟩
  rw [dayDiff, miscDayDiff, dayNumber_eq hstart start.month_mem ⟨hday.1, by omega⟩,
    dayNumber_eq hend end'.month_mem ⟨hday'.1, by omega⟩]
  exact int_of_mem (by omega)

/-- `misc_day_diff` counts the days from one date to the other. -/
theorem dayDiff_counts (hstart : InRange start) (hend : InRange end') :
    ∃ n, dayDiff start end' = some n ∧ (∀ k, IsSteps Date.next start end' k ↔ k = n) ∧
      dayDiff end' start = some (-n) ∧
      (∀ mid, InRange mid →
        ∃ i j, dayDiff start mid = some i ∧ dayDiff mid end' = some j ∧ i + j = n) ∧
      (InRange end'.next → dayDiff start end'.next = some (n + 1)) ∧
      (InRange start.next → dayDiff start.next end' = some (n - 1)) := by
  refine ⟨_, dayDiff_eq hstart hend, fun k ↦ ?_, ?_, ?_, ?_, ?_⟩
  · exact Date.isSteps_iff (fun date ↦ count date.year date.month date.day) count_next
  · rw [dayDiff_eq hend hstart, neg_sub]
  · intro mid hmid
    exact ⟨_, _, dayDiff_eq hstart hmid, dayDiff_eq hmid hend, by ring⟩
  · intro hnext
    rw [dayDiff_eq hstart hnext, count_next, add_sub_right_comm]
  · intro hnext
    rw [dayDiff_eq hnext hend, count_next, sub_add_eq_sub_sub]

end Dates

/-- The leap day of a century. -/
def leapDay : Date := ⟨2000, 2, 29, by decide, by decide⟩

theorem dayDiff_counts_leapDay : IsSteps Date.next leapDay leapDay.next 1 := by
  have hstart : InRange leapDay := by decide
  have hend : InRange leapDay.next := by decide
  obtain ⟨n, hn, hsteps, -⟩ := dayDiff_counts hstart hend
  have hone : dayDiff leapDay leapDay.next = some 1 := by decide
  exact (hsteps 1).mpr (Option.some.inj (hone.symm.trans hn))

end Misc
