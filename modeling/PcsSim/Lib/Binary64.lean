import Mathlib.Algebra.Order.Archimedean.Basic
import Mathlib.Algebra.Order.Field.Basic
import Mathlib.Algebra.Order.Field.Power
import Mathlib.Data.Int.Log
import Mathlib.Data.Rat.Floor
import Mathlib.Tactic.FieldSimp
import Mathlib.Tactic.Linarith
import Mathlib.Tactic.NormNum
import Mathlib.Tactic.Positivity

/-!
# Doubles

Numbers of the format binary64 as rationals, with arithmetic that rounds the
exact result to the nearest, ties to even.  A zero has a sign: `finite 0` is the
one that is not negative.

`nearest` does not pass a bound that is a multiple of a large enough power of
two; `nearest_le` and `le_nearest` say so and carry every range proof.
-/

inductive Binary64
  | finite (q : ℚ)
  | negZero
  | infinite (negative : Bool)
  | nan
  deriving DecidableEq

namespace Binary64

def isFinite : Binary64 → Bool
  | finite _ | negZero => true
  | infinite _ | nan => false

/-- The number that a finite double stands for. -/
def toRat : Binary64 → ℚ
  | finite q => q
  | _ => 0

/-- The bit of the sign. -/
def negative : Binary64 → Bool
  | finite q => q < 0
  | negZero => true
  | infinite negative => negative
  | nan => false

def zero (negative : Bool) : Binary64 := if negative then negZero else finite 0

/-- Rounds to an integer, ties to even. -/
def halfEven (x : ℚ) : ℤ :=
  if x - ⌊x⌋ < 1 / 2 then ⌊x⌋
  else if 1 / 2 < x - ⌊x⌋ then ⌊x⌋ + 1
  else if ⌊x⌋ % 2 = 0 then ⌊x⌋ else ⌊x⌋ + 1

/-- The exponent of the last place of a number: 53 bits, but none below
`2 ^ (-1074)`. -/
def lastPlace (q : ℚ) : ℤ := max (Int.log 2 |q| - 52) (-1074)

def nearest (q : ℚ) : ℚ := halfEven (q / 2 ^ lastPlace q) * 2 ^ lastPlace q

/-- What is rounded to zero keeps its sign. -/
def round (q : ℚ) : Binary64 :=
  if nearest q = 0 then zero (q < 0)
  else if |nearest q| < 2 ^ 1024 then finite (nearest q)
  else infinite (nearest q < 0)

/-- An exact zero has the sign that is given. -/
def signed (negative : Bool) (q : ℚ) : Binary64 := if q = 0 then zero negative else round q

def mul : Binary64 → Binary64 → Binary64
  | nan, _ => nan
  | _, nan => nan
  | infinite negative, infinite negative' => infinite (negative != negative')
  | infinite negative, y => if y.toRat = 0 then nan else infinite (negative != y.negative)
  | x, infinite negative => if x.toRat = 0 then nan else infinite (x.negative != negative)
  | x, y => signed (x.negative != y.negative) (x.toRat * y.toRat)

/-- Division by a finite number that is not zero. -/
def divBy (y : ℚ) : Binary64 → Binary64
  | nan => nan
  | infinite negative => infinite (negative != decide (y < 0))
  | x => signed (x.negative != decide (y < 0)) (x.toRat / y)

theorem halfEven_le {x : ℚ} {n : ℤ} (h : x ≤ n) : halfEven x ≤ n := by
  have hfloor : ⌊x⌋ ≤ n := Int.floor_le_iff.mpr (by linarith)
  unfold halfEven
  rcases hfloor.lt_or_eq with hlt | heq
  · split_ifs <;> omega
  · -- `x` is the integer `n` itself
    have hx : x - ⌊x⌋ < 1 / 2 := by
      rw [heq]
      linarith
    rw [if_pos hx, heq]

theorem le_halfEven {x : ℚ} {n : ℤ} (h : n ≤ x) : n ≤ halfEven x := by
  have hfloor : n ≤ ⌊x⌋ := Int.le_floor.mpr h
  unfold halfEven
  split_ifs <;> omega

theorem lastPlace_le {q : ℚ} {k : ℤ} (hq : |q| < 2 ^ (k + 53)) (hk : -52 ≤ k) :
    lastPlace q ≤ k := by
  refine max_le ?_ (by omega)
  rcases (abs_nonneg q).eq_or_lt with hzero | hpos
  · rw [← hzero, Int.log_zero_right]
    omega
  · have hlog : Int.log 2 |q| < k + 53 :=
      (Int.lt_zpow_iff_log_lt (b := 2) (by decide) hpos).mp (by exact_mod_cast hq)
    omega

section Bounds

variable {q : ℚ} {k n : ℤ}

theorem scaled_eq (hk : lastPlace q ≤ k) :
    (n : ℚ) * 2 ^ k = ((n * 2 ^ (k - lastPlace q).toNat : ℤ) : ℚ) * 2 ^ lastPlace q := by
  have hsplit : (2 : ℚ) ^ k = 2 ^ (k - lastPlace q).toNat * 2 ^ lastPlace q := by
    rw [← zpow_natCast, ← zpow_add₀ (by norm_num)]
    congr 1
    omega
  push_cast
  rw [hsplit, mul_assoc]

/-- A bound that is a multiple of a power of two no smaller than the last place
bounds the rounded number too. -/
theorem nearest_le (hk : lastPlace q ≤ k) (h : q ≤ n * 2 ^ k) : nearest q ≤ n * 2 ^ k := by
  rw [scaled_eq hk] at h ⊢
  have hpos : (0 : ℚ) < 2 ^ lastPlace q := by positivity
  exact mul_le_mul_of_nonneg_right
    (Int.cast_le.mpr (halfEven_le ((div_le_iff₀ hpos).mpr h))) hpos.le

theorem le_nearest (hk : lastPlace q ≤ k) (h : n * 2 ^ k ≤ q) : n * 2 ^ k ≤ nearest q := by
  rw [scaled_eq hk] at h ⊢
  have hpos : (0 : ℚ) < 2 ^ lastPlace q := by positivity
  exact mul_le_mul_of_nonneg_right
    (Int.cast_le.mpr (le_halfEven ((le_div_iff₀ hpos).mpr h))) hpos.le

theorem nearest_zero : nearest 0 = 0 := by
  have hzero : halfEven 0 = 0 := by decide +kernel
  rw [nearest, zero_div, hzero, Int.cast_zero, zero_mul]

theorem round_eq_finite (hsign : nearest q = 0 → 0 ≤ q) (h : |nearest q| < 2 ^ 1024) :
    round q = finite (nearest q) := by
  by_cases hzero : nearest q = 0
  · rw [round, if_pos hzero, zero, if_neg (by simpa using hsign hzero), hzero]
  · rw [round, if_neg hzero, if_pos h]

theorem round_zero : round 0 = finite 0 := by
  rw [round_eq_finite (fun _ ↦ le_rfl) (by rw [nearest_zero]; norm_num), nearest_zero]

theorem signed_of_ne_zero (hq : q ≠ 0) (negative : Bool) : signed negative q = round q := if_neg hq

theorem signed_false (q : ℚ) : signed false q = round q := by
  by_cases hq : q = 0
  · rw [hq, round_zero]
    rfl
  · exact signed_of_ne_zero hq false

theorem nearest_between (hn : n < 2 ^ 53) (hlow : -52 ≤ k) (hhigh : k ≤ 960) (hzero : 0 ≤ q)
    (h : q ≤ n * 2 ^ k) :
    0 ≤ nearest q ∧ nearest q ≤ n * 2 ^ k ∧ |nearest q| < 2 ^ 1024 := by
  have hbits : (n : ℚ) * 2 ^ k < 2 ^ (k + 53) := by
    have hpos : (0 : ℚ) < 2 ^ k := by positivity
    rw [zpow_add₀ (by norm_num), mul_comm]
    exact mul_lt_mul_of_pos_left (by exact_mod_cast hn) hpos
  have hplace : lastPlace q ≤ k :=
    lastPlace_le (by rw [abs_of_nonneg hzero]; exact h.trans_lt hbits) hlow
  have hle : nearest q ≤ n * 2 ^ k := nearest_le hplace h
  have hnonneg : 0 ≤ nearest q := by simpa using le_nearest (n := 0) hplace (by simpa using hzero)
  have hfinite : |nearest q| < 2 ^ 1024 := by
    calc |nearest q| = nearest q := abs_of_nonneg hnonneg
      _ ≤ n * 2 ^ k := hle
      _ < 2 ^ (k + 53) := hbits
      _ ≤ 2 ^ (1024 : ℤ) := zpow_le_zpow_right₀ (by norm_num) (by omega)
      _ = 2 ^ 1024 := zpow_ofNat 2 1024
  exact ⟨hnonneg, hle, hfinite⟩

/-- Rounding keeps the range from 0 to a number of 53 bits. -/
theorem round_between (hn : n < 2 ^ 53) (hlow : -52 ≤ k) (hhigh : k ≤ 960) (hzero : 0 ≤ q)
    (h : q ≤ n * 2 ^ k) : ∃ r, round q = finite r ∧ 0 ≤ r ∧ r ≤ n * 2 ^ k := by
  obtain ⟨hnonneg, hle, hfinite⟩ := nearest_between hn hlow hhigh hzero h
  exact ⟨nearest q, round_eq_finite (fun _ ↦ hzero) hfinite, hnonneg, hle⟩

end Bounds

end Binary64
