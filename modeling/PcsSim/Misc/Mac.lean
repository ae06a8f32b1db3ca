import Mathlib.Algebra.Order.Field.Rat
import Mathlib.Data.Nat.Cast.Order.Field
import Mathlib.Tactic.NormNum
import Mathlib.Tactic.Positivity

/-!
# The load of the processor

The counters wrap at 32 bits, and so do their sums.  The differences of the sums
are taken in `unsigned long`.
-/

namespace Mac

/-- The data models: `unsigned long` has 32 bits or 64. -/
inductive DataModel
  | ilp32
  | lp64
  deriving DecidableEq, Repr

def DataModel.longBits : DataModel → ℕ
  | .ilp32 => 32
  | .lp64 => 64

structure CpuInfo where
  user : BitVec 32
  nic : BitVec 32
  system : BitVec 32
  idle : BitVec 32
  deriving DecidableEq, Repr

/-- Evaluated in rationals instead of `float`. -/
def macCalCpuOccupy (target : DataModel) (first second : CpuInfo) : ℚ :=
  let oldCpuTime :=
    (first.user + first.nic + first.system + first.idle).setWidth target.longBits
  let newCpuTime :=
    (second.user + second.nic + second.system + second.idle).setWidth target.longBits
  let usrTimeDiff := (second.user - first.user).setWidth target.longBits
  let sysTimeDiff := (second.system - first.system).setWidth target.longBits
  let nicTimeDiff := (second.nic - first.nic).setWidth target.longBits
  if newCpuTime - oldCpuTime ≠ 0 then
    100 * (usrTimeDiff + sysTimeDiff + nicTimeDiff).toNat / (newCpuTime - oldCpuTime).toNat
  else
    0

/-- How far a counter went on, when it wrapped at most once. -/
def advance (first second : BitVec 32) : ℕ := (second - first).toNat

def busyAdvance (first second : CpuInfo) : ℕ :=
  advance first.user second.user + advance first.nic second.nic +
    advance first.system second.system

def totalAdvance (first second : CpuInfo) : ℕ :=
  busyAdvance first second + advance first.idle second.idle

/-- The sum of the counters, as it is kept. -/
def CpuInfo.sum (info : CpuInfo) : ℕ :=
  (info.user.toNat + info.nic.toNat + info.system.toNat + info.idle.toNat) % 2 ^ 32

/-- The share of the busy time, in percent. -/
structure IsLoad (first second : CpuInfo) (load : ℚ) : Prop where
  idle : totalAdvance first second = 0 → load = 0
  busy : 0 < totalAdvance first second →
    load = 100 * busyAdvance first second / totalAdvance first second
  percentage : 0 ≤ load ∧ load ≤ 100

section Sums

variable {first second : CpuInfo}

theorem toNat_sum (info : CpuInfo) :
    (info.user + info.nic + info.system + info.idle).toNat = info.sum := by
  simp only [CpuInfo.sum, BitVec.toNat_add]
  omega

theorem advance_spec (first second : BitVec 32) :
    second.toNat = (first.toNat + advance first second) % 2 ^ 32 := by
  have hfirst := first.isLt
  have hsecond := second.isLt
  rw [advance, BitVec.toNat_sub]
  omega

theorem sum_lt (info : CpuInfo) : info.sum < 2 ^ 32 := Nat.mod_lt _ (by decide)

theorem sum_eq_of_advance (first second : CpuInfo) :
    second.sum = (first.sum + totalAdvance first second) % 2 ^ 32 := by
  have huser := advance_spec first.user second.user
  have hnic := advance_spec first.nic second.nic
  have hsystem := advance_spec first.system second.system
  have hidle := advance_spec first.idle second.idle
  simp only [CpuInfo.sum, totalAdvance, busyAdvance]
  omega

theorem busyAdvance_le_totalAdvance : busyAdvance first second ≤ totalAdvance first second :=
  Nat.le_add_right _ _

end Sums

section Widths

variable {first second : CpuInfo} (target : DataModel)

/-- The divisor that the code computes. -/
def elapsed (target : DataModel) (first second : CpuInfo) : ℕ :=
  if target = .ilp32 ∨ first.sum + totalAdvance first second < 2 ^ 32 then
    totalAdvance first second
  else
    2 ^ 64 - 2 ^ 32 + totalAdvance first second

theorem toNat_busy (h : totalAdvance first second < 2 ^ 32) :
    ((second.user - first.user).setWidth target.longBits +
      (second.system - first.system).setWidth target.longBits +
        (second.nic - first.nic).setWidth target.longBits).toNat = busyAdvance first second := by
  have hbusy := busyAdvance_le_totalAdvance.trans_lt h
  simp only [busyAdvance, advance] at hbusy ⊢
  rw [BitVec.toNat_add, BitVec.toNat_add, BitVec.toNat_setWidth, BitVec.toNat_setWidth,
    BitVec.toNat_setWidth]
  cases target <;>
  · simp only [DataModel.longBits]
    omega

theorem toNat_elapsed (h : totalAdvance first second < 2 ^ 32) :
    ((second.user + second.nic + second.system + second.idle).setWidth target.longBits -
      (first.user + first.nic + first.system + first.idle).setWidth target.longBits).toNat =
        elapsed target first second := by
  have hsum := sum_eq_of_advance first second
  have hfirst := sum_lt first
  have hsecond := sum_lt second
  rw [BitVec.toNat_sub, BitVec.toNat_setWidth, BitVec.toNat_setWidth, toNat_sum, toNat_sum,
    elapsed]
  cases target with
  | ilp32 =>
      simp only [DataModel.longBits, true_or, if_true]
      omega
  | lp64 =>
      simp only [DataModel.longBits, reduceCtorEq, false_or]
      split_ifs <;> omega

theorem macCalCpuOccupy_eq (h : totalAdvance first second < 2 ^ 32) :
    macCalCpuOccupy target first second =
      100 * busyAdvance first second / elapsed target first second := by
  have hbusy := toNat_busy target h
  have helapsed := toNat_elapsed target h
  simp only [macCalCpuOccupy, hbusy, helapsed]
  split_ifs with hne
  · rfl
  · have hzero : elapsed target first second = 0 := by
      rw [← helapsed, not_not.mp hne]
      exact BitVec.toNat_zero
    rw [hzero, Nat.cast_zero, div_zero]

theorem isLoad_of_elapsed {load : ℚ}
    (h : load = 100 * busyAdvance first second / totalAdvance first second) :
    IsLoad first second load where
  idle hzero := by rw [h, hzero, Nat.cast_zero, div_zero]
  busy _ := h
  percentage := by
    have hle : (busyAdvance first second : ℚ) ≤ totalAdvance first second :=
      Nat.cast_le.mpr busyAdvance_le_totalAdvance
    rw [h]
    constructor
    · positivity
    · apply div_le_of_le_mul₀ (Nat.cast_nonneg _) (by norm_num)
      exact mul_le_mul_of_nonneg_left hle (by norm_num)

end Widths

/-- In 64 bits the sum that wrapped leaves a divisor that is too large, and the
load is near 0. -/
theorem isLoad_iff (target : DataModel) (first second : CpuInfo)
    (h : totalAdvance first second < 2 ^ 32) :
    IsLoad first second (macCalCpuOccupy target first second) ↔
      target = .ilp32 ∨ busyAdvance first second = 0 ∨
        first.sum + totalAdvance first second < 2 ^ 32 := by
  rw [macCalCpuOccupy_eq target h]
  constructor
  · intro hload
    by_contra hwrap
    push Not at hwrap
    obtain ⟨htarget, hbusy, hsum⟩ := hwrap
    have htotal : 0 < totalAdvance first second :=
      (Nat.pos_of_ne_zero hbusy).trans_le busyAdvance_le_totalAdvance
    have helapsed : elapsed target first second = 2 ^ 64 - 2 ^ 32 + totalAdvance first second := by
      apply if_neg
      rintro (heq | hlt)
      · exact htarget heq
      · exact absurd hsum (not_le.mpr hlt)
    have heq := hload.busy htotal
    have hnum : (0 : ℚ) < 100 * busyAdvance first second := by
      have := Nat.cast_pos (α := ℚ).mpr (Nat.pos_of_ne_zero hbusy)
      positivity
    have hdivisors : (elapsed target first second : ℚ) = totalAdvance first second := by
      rw [div_eq_mul_inv, div_eq_mul_inv] at heq
      exact inv_injective (mul_left_cancel₀ hnum.ne' heq)
    have hdivisors' := Nat.cast_injective hdivisors
    omega
  · rintro (rfl | hbusy | hsum)
    · apply isLoad_of_elapsed
      rw [elapsed, if_pos (.inl rfl)]
    · apply isLoad_of_elapsed
      rw [hbusy, Nat.cast_zero, mul_zero, zero_div, zero_div]
    · apply isLoad_of_elapsed
      rw [elapsed, if_pos (.inr hsum)]

/-- A busy processor at the wrap of the idle time. -/
def beforeWrap : CpuInfo := ⟨0, 0, 0, BitVec.allOnes 32⟩

def afterWrap : CpuInfo := ⟨1, 0, 0, 0⟩

theorem isLoad_wrap :
    IsLoad beforeWrap afterWrap (macCalCpuOccupy .ilp32 beforeWrap afterWrap) :=
  (isLoad_iff .ilp32 beforeWrap afterWrap (by decide)).mpr (.inl rfl)

/-- The load is 50 percent. -/
theorem not_isLoad_wrap :
    totalAdvance beforeWrap afterWrap = 2 ∧ busyAdvance beforeWrap afterWrap = 1 ∧
      macCalCpuOccupy .lp64 beforeWrap afterWrap = 100 / (2 ^ 64 - 2 ^ 32 + 2) ∧
        ¬IsLoad beforeWrap afterWrap (macCalCpuOccupy .lp64 beforeWrap afterWrap) := by
  have htotal : totalAdvance beforeWrap afterWrap = 2 := by decide
  have hbusy : busyAdvance beforeWrap afterWrap = 1 := by decide
  have hload : macCalCpuOccupy .lp64 beforeWrap afterWrap = 100 / (2 ^ 64 - 2 ^ 32 + 2) := by
    decide +kernel
  refine ⟨htotal, hbusy, hload, fun h ↦ ?_⟩
  have heq := h.busy (by rw [htotal]; decide)
  rw [hload, htotal, hbusy] at heq
  norm_num at heq

end Mac
