import PcsSim.Lib.Significant

/-!
# Comparing doubles

Differences and comparisons of doubles.  The difference of two doubles that are
close to each other is exact, so a comparison with the rounded difference is
one with the difference itself.
-/

namespace Binary64

def abs : Binary64 → Binary64
  | finite q => finite |q|
  | negZero => finite 0
  | infinite _ => infinite false
  | nan => nan

def sub : Binary64 → Binary64 → Binary64
  | nan, _ => nan
  | _, nan => nan
  | infinite negative, infinite negative' =>
    if negative = negative' then nan else infinite negative
  | infinite negative, _ => infinite negative
  | _, infinite negative => infinite !negative
  -- a difference of zero is negative only for `-0 - 0`
  | x, y => signed (x.negative && !y.negative) (x.toRat - y.toRat)

/-- Nothing is below a NaN or above it. -/
def le : Binary64 → Binary64 → Bool
  | nan, _ => false
  | _, nan => false
  | infinite negative, infinite negative' => negative || !negative'
  | infinite negative, _ => negative
  | _, infinite negative => !negative
  | x, y => x.toRat ≤ y.toRat

def lt (x y : Binary64) : Bool := x.le y && !y.le x

/-- A finite value has at most 53 bits and is in range. -/
def IsDouble : Binary64 → Prop
  | finite q => Representable q ∧ |q| < 2 ^ 1024
  | _ => True

theorem isDouble_zero (negative : Bool) : (zero negative).IsDouble := by
  cases negative with
  | false => exact ⟨nearest_zero, by norm_num⟩
  | true => trivial

theorem isDouble_round (q : ℚ) : (round q).IsDouble := by
  unfold round
  split_ifs with hzero hrange
  · exact isDouble_zero _
  · exact ⟨representable_nearest q, hrange⟩
  · trivial

theorem isDouble_signed (negative : Bool) (q : ℚ) : (signed negative q).IsDouble := by
  unfold signed
  split_ifs
  · exact isDouble_zero negative
  · exact isDouble_round q

theorem round_of_representable {q : ℚ} (hq : Representable q) (h : |q| < 2 ^ 1024) :
    round q = finite q := by
  have hnearest : nearest q = q := hq
  rw [round_eq_finite, hnearest]
  · intro hzero
    exact (hnearest.symm.trans hzero).ge
  · rwa [hnearest]

section Signs

variable {x y : Binary64}

theorem abs_of_isFinite (hx : x.isFinite) : x.abs = finite |x.toRat| := by
  cases x with
  | finite q => rfl
  | negZero => exact congrArg finite abs_zero.symm
  | infinite negative => cases hx
  | nan => cases hx

theorem sub_of_isFinite (hx : x.isFinite) (hy : y.isFinite) :
    x.sub y = signed (x.negative && !y.negative) (x.toRat - y.toRat) := by
  cases x with
  | finite p | negZero =>
      cases y with
      | finite q | negZero => rfl
      | infinite negative | nan => cases hy
  | infinite negative | nan => cases hx

theorem abs_zero_eq (negative : Bool) : (zero negative).abs = finite 0 := by
  cases negative with
  | false => exact congrArg finite abs_zero
  | true => rfl

theorem abs_round (q : ℚ) : (round q).abs =
    if |nearest q| < 2 ^ 1024 then finite |nearest q| else infinite false := by
  by_cases hzero : nearest q = 0
  · have hrange : |nearest q| < 2 ^ 1024 := by
      rw [hzero]
      norm_num
    rw [round, if_pos hzero, if_pos hrange, abs_zero_eq, hzero, abs_zero]
  · rw [round, if_neg hzero]
    split_ifs <;> rfl

theorem isFinite_round {q : ℚ} (h : |nearest q| < 2 ^ 1024) : (round q).isFinite := by
  by_cases hzero : nearest q = 0
  · rw [round, if_pos hzero]
    cases decide (q < 0) <;> rfl
  · rw [round, if_neg hzero, if_pos h]
    rfl

theorem abs_signed (negative : Bool) (q : ℚ) : (signed negative q).abs = (round q).abs := by
  by_cases hq : q = 0
  · rw [signed, if_pos hq, hq, round_zero, abs_zero_eq]
    exact congrArg finite abs_zero.symm
  · rw [signed_of_ne_zero hq]

theorem IsDouble.toRat (hx : x.IsDouble) : Representable x.toRat ∧ |x.toRat| < 2 ^ 1024 := by
  cases x with
  | finite q => exact hx
  | negZero | infinite negative | nan => exact isDouble_zero false

end Signs

section Differences

variable {a b q : ℚ} {k : ℤ}

theorem Representable.abs (h : Representable q) : Representable |q| := by
  rcases abs_choice q with hq | hq
  · rwa [hq]
  · rw [hq]
    exact h.neg

theorem sub_of_places (ha : Representable a) (hb : Representable b)
    (hplace : lastPlace a ≤ lastPlace b) (h : |a - b| ≤ |a|) : Representable (a - b) := by
  obtain ⟨m, hm⟩ := ha.exists_eq
  obtain ⟨n, hn⟩ := hb.exists_eq
  have hstep : (0 : ℚ) < 2 ^ lastPlace a := by positivity
  have hdifference : a - b =
      ((m - n * 2 ^ (lastPlace b - lastPlace a).toNat : ℤ) : ℚ) * 2 ^ lastPlace a := by
    rw [two_zpow_split hplace, ← mul_assoc] at hn
    push_cast at hn ⊢
    rw [sub_mul, ← hm, ← hn]
  have hbits : |(m - n * 2 ^ (lastPlace b - lastPlace a).toNat : ℤ)| < 2 ^ 53 := by
    have hlt := h.trans_lt (abs_lt_two_zpow a)
    rw [hdifference, abs_mul, abs_of_pos hstep, zpow_add₀ (by norm_num), mul_comm] at hlt
    exact_mod_cast lt_of_mul_lt_mul_left hlt hstep.le
  rw [hdifference]
  exact representable_of_bits hbits (le_max_right _ _)

/-- The difference of two doubles is exact where it is no larger than either. -/
theorem Representable.sub (ha : Representable a) (hb : Representable b) (h : |a - b| ≤ |a|)
    (h' : |a - b| ≤ |b|) : Representable (a - b) := by
  rcases le_total (lastPlace a) (lastPlace b) with hplace | hplace
  · exact sub_of_places ha hb hplace h
  · rw [← neg_sub]
    apply (sub_of_places hb ha hplace _).neg
    rwa [abs_sub_comm]

theorem lastPlace_of_le (h : 2 ^ (k + 52) ≤ |q|) : k ≤ lastPlace q := by
  have hpos : 0 < |q| := lt_of_lt_of_le (by positivity) h
  have hlog : k + 52 ≤ Int.log 2 |q| :=
    (Int.zpow_le_iff_le_log (b := 2) (by decide) hpos).mp (by exact_mod_cast h)
  have hle : Int.log 2 |q| - 52 ≤ lastPlace q := le_max_left _ _
  omega

/-- Division by a power of two is exact for numbers that are large enough. -/
theorem Representable.div_two_pow (hq : Representable q) {n : ℕ}
    (h : 2 ^ ((n : ℤ) - 1022) ≤ |q|) : Representable (q / 2 ^ n) := by
  obtain ⟨m, hm⟩ := hq.exists_eq
  have hplace : (n : ℤ) - 1074 ≤ lastPlace q := by
    apply lastPlace_of_le
    convert h using 2
    ring
  have hstep : (0 : ℚ) < 2 ^ lastPlace q := by positivity
  have hbits : |m| < 2 ^ 53 := by
    have hlt := abs_lt_two_zpow q
    rw [hm, abs_mul, abs_of_pos hstep, ← hm, zpow_add₀ (by norm_num), mul_comm] at hlt
    exact_mod_cast lt_of_mul_lt_mul_left hlt hstep.le
  have hdiv : q / 2 ^ n = m * 2 ^ (lastPlace q - n) := by
    rw [zpow_sub₀ (by norm_num), zpow_natCast, ← mul_div_assoc, ← hm]
  rw [hdiv]
  exact representable_of_bits hbits (by omega)

theorem nearest_nonneg (hq : 0 ≤ q) : 0 ≤ nearest q := by
  have h := le_nearest (q := q) (n := 0) le_rfl
  rw [Int.cast_zero, zero_mul] at h
  exact h hq

theorem nearest_nonpos (hq : q ≤ 0) : nearest q ≤ 0 := by
  have hneg : 0 ≤ nearest (-q) := nearest_nonneg (neg_nonneg.mpr hq)
  rw [nearest_neg] at hneg
  exact neg_nonneg.mp hneg

theorem nearest_abs (q : ℚ) : nearest |q| = |nearest q| := by
  rcases le_total 0 q with hq | hq
  · rw [abs_of_nonneg hq, abs_of_nonneg (nearest_nonneg hq)]
  · rw [abs_of_nonpos hq, abs_of_nonpos (nearest_nonpos hq), nearest_neg]

theorem negative_zero (negative : Bool) : (zero negative).negative = negative := by
  cases negative <;> rfl

/-- Rounding keeps the sign. -/
theorem negative_round (q : ℚ) : (round q).negative = decide (q < 0) := by
  by_cases hzero : nearest q = 0
  · rw [round, if_pos hzero, negative_zero]
  · have hsign : nearest q < 0 ↔ q < 0 := by
      constructor
      · intro hneg
        by_contra hq
        exact (nearest_nonneg (not_lt.mp hq)).not_gt hneg
      · intro hneg
        exact lt_of_le_of_ne (nearest_nonpos hneg.le) hzero
    rw [round, if_neg hzero]
    split_ifs
    · exact decide_eq_decide.mpr hsign
    · exact decide_eq_decide.mpr hsign

theorem half_le_nearest (hq : 2 ^ (-1022 : ℤ) ≤ q) : q / 2 ≤ nearest q := by
  have hpos : 0 < q := lt_of_lt_of_le (by positivity) hq
  have herror := abs_nearest_sub_mul_le hq
  have hbelow : q - nearest q ≤ |nearest q - q| := by
    rw [abs_sub_comm]
    exact le_abs_self _
  by_contra hsmall
  linarith

/-- Doubles whose rounded difference is small are close. -/
theorem abs_sub_le_of_nearest (ha : Representable a) (hb : Representable b)
    (h : |nearest (a - b)| ≤ max |a| |b| / 2 ^ 52) (hnormal : 2 ^ (-1020 : ℤ) ≤ max |a| |b|) :
    |a - b| ≤ max |a| |b| / 2 ^ 52 := by
  have hpos : 0 < max |a| |b| := lt_of_lt_of_le (by positivity) hnormal
  have hhalf : |a - b| ≤ max |a| |b| / 2 := by
    by_contra hfar
    have hpower : (2 : ℚ) ^ (-1020 : ℤ) = 2 ^ (-1022 : ℤ) * 4 := by
      rw [show (-1020 : ℤ) = -1022 + 2 by norm_num, zpow_add₀ (by norm_num)]
      norm_num
    have hlarge : (2 : ℚ) ^ (-1022 : ℤ) ≤ |a - b| := by linarith
    have hnearest := half_le_nearest hlarge
    rw [nearest_abs] at hnearest
    linarith
  have htriangle := abs_sub_abs_le_abs_sub a b
  have htriangle' := abs_sub_abs_le_abs_sub b a
  rw [abs_sub_comm b a] at htriangle'
  have hexact : Representable (a - b) := by
    rcases max_choice |a| |b| with hmax | hmax
    · rw [hmax] at hhalf
      exact ha.sub hb (by linarith [abs_nonneg a]) (by linarith)
    · rw [hmax] at hhalf
      exact ha.sub hb (by linarith) (by linarith [abs_nonneg b])
  rwa [hexact] at h

end Differences

end Binary64
