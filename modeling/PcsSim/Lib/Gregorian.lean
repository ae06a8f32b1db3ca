import Mathlib.Data.Int.Init
import Mathlib.Logic.Function.Iterate
import Mathlib.Tactic.Ring

/-!
# The Gregorian calendar

Dates and their successor, for every year.  A function that goes up by one from
each date to the next counts the days between any two.
-/

section Steps

variable {α : Type*} {next : α → α} {a b : α}

/-- `n` steps lead from `a` to `b`, negative when `b` comes first. -/
def IsSteps (next : α → α) (a b : α) (n : ℤ) : Prop :=
  (∃ k : ℕ, n = k ∧ next^[k] a = b) ∨ ∃ k : ℕ, n = -k ∧ next^[k] b = a

theorem iterate_count {count : α → ℤ} (hcount : ∀ x, count (next x) = count x + 1) (k : ℕ)
    (a : α) :
    count (next^[k] a) = count a + k := by
  induction k with
  | zero => simp
  | succ k ih =>
      rw [Function.iterate_succ_apply', hcount, ih]
      push_cast
      ring

theorem isSteps_iff_of_count {count : α → ℤ} (hcount : ∀ x, count (next x) = count x + 1)
    (hconnected : ∀ x y, (∃ k, next^[k] x = y) ∨ ∃ k, next^[k] y = x) {n : ℤ} :
    IsSteps next a b n ↔ n = count b - count a := by
  constructor
  · rintro (⟨k, rfl, rfl⟩ | ⟨k, rfl, rfl⟩)
    · rw [iterate_count hcount]
      omega
    · rw [iterate_count hcount]
      omega
  · rintro rfl
    rcases hconnected a b with ⟨k, rfl⟩ | ⟨k, rfl⟩
    · refine .inl ⟨k, ?_, rfl⟩
      rw [iterate_count hcount]
      omega
    · refine .inr ⟨k, ?_, rfl⟩
      rw [iterate_count hcount]
      omega

end Steps

namespace Gregorian

def IsLeap (year : ℤ) : Prop := 4 ∣ year ∧ (¬100 ∣ year ∨ 400 ∣ year)

instance (year : ℤ) : Decidable (IsLeap year) := inferInstanceAs (Decidable (_ ∧ _))

def monthLength (year month : ℤ) : ℤ :=
  if month = 2 then
    if IsLeap year then 29 else 28
  else if month = 4 ∨ month = 6 ∨ month = 9 ∨ month = 11 then 30
  else 31

theorem monthLength_pos (year month : ℤ) : 1 ≤ monthLength year month := by
  rw [monthLength]
  split_ifs <;> decide

@[ext]
structure Date where
  year : ℤ
  month : ℤ
  day : ℤ
  month_mem : 1 ≤ month ∧ month ≤ 12
  day_mem : 1 ≤ day ∧ day ≤ monthLength year month

namespace Date

def nextMonth (date : Date) : Date :=
  if h : date.month < 12 then
    ⟨date.year, date.month + 1, 1, ⟨by have := date.month_mem; omega, by omega⟩,
      ⟨le_rfl, monthLength_pos _ _⟩⟩
  else
    ⟨date.year + 1, 1, 1, by decide, ⟨le_rfl, monthLength_pos _ _⟩⟩

def next (date : Date) : Date :=
  if h : date.day < monthLength date.year date.month then
    ⟨date.year, date.month, date.day + 1, date.month_mem,
      ⟨by have := date.day_mem; omega, by omega⟩⟩
  else
    date.nextMonth

/-- The months, counted through the years. -/
def monthIndex (date : Date) : ℤ := 12 * date.year + date.month

theorem eq_of_monthIndex_eq {date date' : Date} (hindex : date.monthIndex = date'.monthIndex)
    (hday : date.day = date'.day) : date = date' := by
  have hmonth := date.month_mem
  have hmonth' := date'.month_mem
  simp only [monthIndex] at hindex
  exact Date.ext (by omega) (by omega) hday

theorem monthLength_eq_of_monthIndex_eq {date date' : Date}
    (hindex : date.monthIndex = date'.monthIndex) :
    monthLength date.year date.month = monthLength date'.year date'.month := by
  have hmonth := date.month_mem
  have hmonth' := date'.month_mem
  simp only [monthIndex] at hindex
  have hyear : date.year = date'.year := by omega
  have hmonths : date.month = date'.month := by omega
  rw [hyear, hmonths]

@[simp] theorem day_nextMonth (date : Date) : date.nextMonth.day = 1 := by
  rw [nextMonth]
  split_ifs <;> rfl

theorem monthIndex_nextMonth (date : Date) :
    date.nextMonth.monthIndex = date.monthIndex + 1 := by
  have hmonth := date.month_mem
  simp only [nextMonth, monthIndex]
  split_ifs
  · ring
  · dsimp only
    omega

theorem exists_iterate_of_day_le (k : ℕ) {date date' : Date}
    (hindex : date.monthIndex = date'.monthIndex) (hday : date.day + k = date'.day) :
    next^[k] date = date' := by
  induction k generalizing date with
  | zero => exact eq_of_monthIndex_eq hindex (by simpa using hday)
  | succ k ih =>
      have hlt : date.day < monthLength date.year date.month := by
        have hle := date'.day_mem.2
        rw [← monthLength_eq_of_monthIndex_eq hindex] at hle
        push_cast at hday
        omega
      rw [Function.iterate_succ_apply]
      apply ih
      · rw [next, dif_pos hlt]
        exact hindex
      · rw [next, dif_pos hlt]
        push_cast at hday
        dsimp only
        omega

theorem exists_iterate_of_le {date date' : Date} (hindex : date.monthIndex = date'.monthIndex)
    (hday : date.day ≤ date'.day) : ∃ k, next^[k] date = date' :=
  ⟨(date'.day - date.day).toNat, exists_iterate_of_day_le _ hindex (by omega)⟩

theorem exists_iterate_nextMonth (date : Date) : ∃ k, next^[k] date = date.nextMonth := by
  let last : Date := ⟨date.year, date.month, monthLength date.year date.month, date.month_mem,
    ⟨monthLength_pos _ _, le_rfl⟩⟩
  have hindex : date.monthIndex = last.monthIndex := rfl
  obtain ⟨k, hk⟩ := exists_iterate_of_le hindex date.day_mem.2
  have hnext : last.next = date.nextMonth := by
    rw [next, dif_neg (lt_irrefl _)]
    rfl
  exact ⟨k + 1, by rw [Function.iterate_succ_apply', hk, hnext]⟩

theorem exists_iterate_of_monthIndex (k : ℕ) {date date' : Date}
    (hindex : date.monthIndex + (k + 1 : ℕ) = date'.monthIndex) : ∃ i, next^[i] date = date' := by
  induction k generalizing date with
  | zero =>
      obtain ⟨i, hi⟩ := date.exists_iterate_nextMonth
      have hnext : date.nextMonth.monthIndex = date'.monthIndex := by
        rw [monthIndex_nextMonth, ← hindex]
        rfl
      obtain ⟨j, hj⟩ := exists_iterate_of_le hnext (by simpa using date'.day_mem.1)
      exact ⟨j + i, by rw [Function.iterate_add_apply, hi, hj]⟩
  | succ k ih =>
      obtain ⟨i, hi⟩ := date.exists_iterate_nextMonth
      have hnext : date.nextMonth.monthIndex + (k + 1 : ℕ) = date'.monthIndex := by
        rw [monthIndex_nextMonth, ← hindex]
        push_cast
        ring
      obtain ⟨j, hj⟩ := ih hnext
      exact ⟨j + i, by rw [Function.iterate_add_apply, hi, hj]⟩

theorem exists_iterate_of_lt {date date' : Date} (h : date.monthIndex < date'.monthIndex) :
    ∃ k, next^[k] date = date' :=
  exists_iterate_of_monthIndex (date'.monthIndex - date.monthIndex - 1).toNat (by omega)

/-- Of two dates, one comes after the other. -/
theorem connected (date date' : Date) :
    (∃ k, next^[k] date = date') ∨ ∃ k, next^[k] date' = date := by
  rcases lt_trichotomy date.monthIndex date'.monthIndex with hlt | heq | hgt
  · exact .inl (exists_iterate_of_lt hlt)
  · rcases le_total date.day date'.day with hle | hge
    · exact .inl (exists_iterate_of_le heq hle)
    · exact .inr (exists_iterate_of_le heq.symm hge)
  · exact .inr (exists_iterate_of_lt hgt)

theorem isSteps_iff (count : Date → ℤ) (hcount : ∀ date, count date.next = count date + 1)
    {date date' : Date} {n : ℤ} :
    IsSteps next date date' n ↔ n = count date' - count date :=
  isSteps_iff_of_count hcount connected

end Date

end Gregorian
