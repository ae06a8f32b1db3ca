import PcsSim.Lib.Binary64

/-!
# Significant digits

A positive number rounded to a number of significant decimal digits, ties to
even, and what is left of it when it is rounded to a double: 17 digits carry
every double, and a number of 15 digits is carried by the double nearest to it.
-/

namespace Binary64

section HalfEven

variable {x : ℚ} {n : ℤ}

theorem halfEven_of_close (h : |x - n| < 1 / 2) : halfEven x = n := by
  obtain ⟨hlow, hhigh⟩ := abs_lt.mp h
  unfold halfEven
  rcases le_or_gt (n : ℚ) x with hle | hlt
  · have hfloor : ⌊x⌋ = n := Int.floor_eq_iff.mpr ⟨hle, by linarith⟩
    rw [hfloor, if_pos (by linarith)]
  · have hfloor : ⌊x⌋ = n - 1 := by
      apply Int.floor_eq_iff.mpr
      push_cast
      constructor <;> linarith
    have hcast : ((⌊x⌋ : ℤ) : ℚ) = n - 1 := by
      rw [hfloor]
      push_cast
      rfl
    rw [hcast, if_neg (by linarith), if_pos (by linarith), hfloor]
    omega

theorem halfEven_intCast (n : ℤ) : halfEven n = n := by
  apply halfEven_of_close
  rw [sub_self, abs_zero]
  norm_num

theorem abs_halfEven_sub_le (x : ℚ) : |halfEven x - x| ≤ 1 / 2 := by
  have hfloor := Int.floor_le x
  have hlt := Int.lt_floor_add_one x
  rw [abs_le]
  unfold halfEven
  split_ifs with hlow hhigh heven
  · constructor <;> linarith
  · push_cast
    constructor <;> linarith
  · constructor <;> linarith
  · push_cast
    constructor <;> linarith

theorem halfEven_neg (x : ℚ) : halfEven (-x) = -halfEven x := by
  have hhalf := abs_halfEven_sub_le x
  rcases hhalf.lt_or_eq with hlt | heq
  · apply halfEven_of_close
    have hsame : -x - ((-halfEven x : ℤ) : ℚ) = halfEven x - x := by
      push_cast
      ring
    rwa [hsame]
  · -- a tie: the two integers beside `x` are those beside `-x`, negated
    have hfloor := Int.floor_le x
    have hlt := Int.lt_floor_add_one x
    have htie : x - ⌊x⌋ = 1 / 2 := by
      by_contra hne
      have hclose : |(halfEven x : ℚ) - x| < 1 / 2 := by
        unfold halfEven
        rcases lt_or_gt_of_ne hne with hlow | hhigh
        · rw [if_pos hlow, abs_lt]
          constructor <;> linarith
        · rw [if_neg (by linarith), if_pos hhigh, abs_lt]
          push_cast
          constructor <;> linarith
      exact absurd heq hclose.ne
    have hneg : ⌊-x⌋ = -⌊x⌋ - 1 := by
      apply Int.floor_eq_iff.mpr
      push_cast
      constructor <;> linarith
    have htie' : -x - ⌊-x⌋ = 1 / 2 := by
      rw [hneg]
      push_cast
      linarith
    unfold halfEven
    rw [htie, htie', if_neg (lt_irrefl _), if_neg (lt_irrefl _), if_neg (lt_irrefl _),
      if_neg (lt_irrefl _), hneg]
    split_ifs <;> omega

end HalfEven

section Nearest

variable {q t d : ℚ} {k n : ℤ}

theorem lastPlace_neg (q : ℚ) : lastPlace (-q) = lastPlace q := by
  rw [lastPlace, lastPlace, abs_neg]

theorem nearest_neg (q : ℚ) : nearest (-q) = -nearest q := by
  rw [nearest, nearest, lastPlace_neg, neg_div, halfEven_neg]
  push_cast
  ring

theorem abs_lt_two_zpow (q : ℚ) : |q| < 2 ^ (lastPlace q + 53) := by
  rcases (abs_nonneg q).eq_or_lt with hzero | hpos
  · rw [← hzero]
    positivity
  · have hlog : Int.log 2 |q| < lastPlace q + 53 := by
      have hle : Int.log 2 |q| - 52 ≤ lastPlace q := le_max_left _ _
      omega
    exact_mod_cast (Int.lt_zpow_iff_log_lt (b := 2) (by decide) hpos).mpr hlog

theorem abs_nearest_sub_le (q : ℚ) : |nearest q - q| ≤ 2 ^ lastPlace q / 2 := by
  have hpos : (0 : ℚ) < 2 ^ lastPlace q := by positivity
  have hscaled : nearest q - q =
      (halfEven (q / 2 ^ lastPlace q) - q / 2 ^ lastPlace q) * 2 ^ lastPlace q := by
    rw [nearest]
    field_simp
  have hhalf := abs_halfEven_sub_le (q / 2 ^ lastPlace q)
  rw [hscaled, abs_mul, abs_of_pos hpos]
  calc _ ≤ 1 / 2 * (2 : ℚ) ^ lastPlace q := mul_le_mul_of_nonneg_right hhalf hpos.le
    _ = 2 ^ lastPlace q / 2 := by ring

/-- A number of at most 53 bits, none of them below `2 ^ (-1074)`. -/
def Representable (q : ℚ) : Prop := nearest q = q

theorem representable_of_eq (h : q = n * 2 ^ lastPlace q) : Representable q := by
  have hpos : (0 : ℚ) < 2 ^ lastPlace q := by positivity
  have hdiv : q / 2 ^ lastPlace q = n := (div_eq_iff hpos.ne').mpr h
  rw [Representable, nearest, hdiv, halfEven_intCast]
  exact h.symm

theorem Representable.exists_eq (h : Representable q) : ∃ n : ℤ, q = n * 2 ^ lastPlace q :=
  ⟨halfEven (q / 2 ^ lastPlace q), h.symm⟩

theorem Representable.neg (h : Representable q) : Representable (-q) := by
  rw [Representable, nearest_neg, h]

theorem lastPlace_le_of_ne_zero (hne : q ≠ 0) (hq : |q| < 2 ^ (k + 53)) (hk : -1074 ≤ k) :
    lastPlace q ≤ k := by
  have hlog : Int.log 2 |q| < k + 53 :=
    (Int.lt_zpow_iff_log_lt (b := 2) (by decide) (abs_pos.mpr hne)).mp (by exact_mod_cast hq)
  exact max_le (by omega) hk

theorem representable_of_bits (hn : |n| < 2 ^ 53) (hk : -1074 ≤ k) :
    Representable (n * 2 ^ k) := by
  rcases eq_or_ne n 0 with rfl | hne
  · apply representable_of_eq (n := 0)
    rw [Int.cast_zero, zero_mul, zero_mul]
  · have hpos : (0 : ℚ) < 2 ^ k := by positivity
    have habs : |(n : ℚ) * 2 ^ k| < 2 ^ (k + 53) := by
      have hcast : |(n : ℚ)| < 2 ^ 53 := by exact_mod_cast hn
      rw [abs_mul, abs_of_pos hpos, zpow_add₀ (by norm_num), mul_comm]
      exact mul_lt_mul_of_pos_left (by exact_mod_cast hcast) hpos
    have hplace : lastPlace ((n : ℚ) * 2 ^ k) ≤ k :=
      lastPlace_le_of_ne_zero (mul_ne_zero (Int.cast_ne_zero.mpr hne) hpos.ne') habs hk
    exact representable_of_eq (scaled_eq hplace)

theorem representable_nearest (q : ℚ) : Representable (nearest q) := by
  have hpos : (0 : ℚ) < 2 ^ lastPlace q := by positivity
  have hmin : -1074 ≤ lastPlace q := le_max_right _ _
  have hscaled : |q / 2 ^ lastPlace q| < 2 ^ 53 := by
    rw [abs_div, abs_of_pos hpos, div_lt_iff₀ hpos, ← zpow_natCast, ← zpow_add₀ (by norm_num),
      add_comm]
    exact abs_lt_two_zpow q
  obtain ⟨hlow, hhigh⟩ := abs_lt.mp hscaled
  have hle : halfEven (q / 2 ^ lastPlace q) ≤ 2 ^ 53 :=
    halfEven_le (by push_cast; exact hhigh.le)
  have hge : -2 ^ 53 ≤ halfEven (q / 2 ^ lastPlace q) :=
    le_halfEven (by push_cast; exact hlow.le)
  rw [nearest]
  rcases lt_or_eq_of_le (abs_le.mpr ⟨hge, hle⟩) with hlt | heq
  · exact representable_of_bits hlt hmin
  · -- rounded up to the next power of two
    have htwo : (2 : ℚ) ^ (lastPlace q + 1) = 2 ^ lastPlace q * 2 := by
      rw [zpow_add₀ (by norm_num), zpow_one]
    rcases (abs_eq (by norm_num)).mp heq with hup | hdown
    · have hnext := representable_of_bits (n := 2 ^ 52) (k := lastPlace q + 1) (by norm_num)
        (by omega)
      rw [htwo] at hnext
      rw [hup]
      convert hnext using 1
      push_cast
      ring
    · have hnext := representable_of_bits (n := -2 ^ 52) (k := lastPlace q + 1) (by norm_num)
        (by omega)
      rw [htwo] at hnext
      rw [hdown]
      convert hnext using 1
      push_cast
      ring

theorem two_zpow_split {j : ℤ} (h : k ≤ j) :
    (2 : ℚ) ^ j = ((2 ^ (j - k).toNat : ℤ) : ℚ) * 2 ^ k := by
  push_cast
  rw [← zpow_natCast, ← zpow_add₀ (by norm_num)]
  congr 1
  omega

/-- Powers of two are at least a place away. -/
theorem Representable.add_le (hd : Representable d) {j : ℤ} (hj : lastPlace d ≤ j)
    (h : d < 2 ^ j) : d + 2 ^ lastPlace d ≤ 2 ^ j := by
  obtain ⟨n, hn⟩ := hd.exists_eq
  have hstep : (0 : ℚ) < 2 ^ lastPlace d := by positivity
  have hlt : (n : ℚ) * 2 ^ lastPlace d < ((2 ^ (j - lastPlace d).toNat : ℤ) : ℚ) *
      2 ^ lastPlace d := by
    rwa [← hn, ← two_zpow_split hj]
  have hnext : n + 1 ≤ 2 ^ (j - lastPlace d).toNat :=
    Int.cast_lt.mp (lt_of_mul_lt_mul_right hlt hstep.le)
  have hcast : (n : ℚ) + 1 ≤ ((2 ^ (j - lastPlace d).toNat : ℤ) : ℚ) := by exact_mod_cast hnext
  calc d + 2 ^ lastPlace d = (n + 1) * 2 ^ lastPlace d := by
        rw [add_mul, one_mul, ← hn]
    _ ≤ ((2 ^ (j - lastPlace d).toNat : ℤ) : ℚ) * 2 ^ lastPlace d :=
        mul_le_mul_of_nonneg_right hcast hstep.le
    _ = 2 ^ j := (two_zpow_split hj).symm

theorem Representable.le_add (hd : Representable d) {j : ℤ} (hj : lastPlace d ≤ j)
    (h : 2 ^ j < d) : 2 ^ j + 2 ^ lastPlace d ≤ d := by
  obtain ⟨n, hn⟩ := hd.exists_eq
  have hstep : (0 : ℚ) < 2 ^ lastPlace d := by positivity
  have hlt : ((2 ^ (j - lastPlace d).toNat : ℤ) : ℚ) * 2 ^ lastPlace d <
      (n : ℚ) * 2 ^ lastPlace d := by
    rwa [← hn, ← two_zpow_split hj]
  have hnext : 2 ^ (j - lastPlace d).toNat + 1 ≤ n :=
    Int.cast_lt.mp (lt_of_mul_lt_mul_right hlt hstep.le)
  have hcast : ((2 ^ (j - lastPlace d).toNat : ℤ) : ℚ) + 1 ≤ n := by exact_mod_cast hnext
  calc (2 : ℚ) ^ j + 2 ^ lastPlace d =
        (((2 ^ (j - lastPlace d).toNat : ℤ) : ℚ) + 1) * 2 ^ lastPlace d := by
        rw [add_mul, one_mul, ← two_zpow_split hj]
    _ ≤ n * 2 ^ lastPlace d := mul_le_mul_of_nonneg_right hcast hstep.le
    _ = d := hn.symm

theorem nearest_eq_of_place (hm : d = n * 2 ^ lastPlace t)
    (h : |t - d| < 2 ^ lastPlace t / 2) : nearest t = d := by
  have hstep : (0 : ℚ) < 2 ^ lastPlace t := by positivity
  have hscaled : t / 2 ^ lastPlace t - n = (t - d) / 2 ^ lastPlace t := by
    rw [hm]
    field_simp
  have hhalf : |t / 2 ^ lastPlace t - n| < 1 / 2 := by
    rw [hscaled, abs_div, abs_of_pos hstep, div_lt_iff₀ hstep]
    linarith
  rw [nearest, halfEven_of_close hhalf, ← hm]

theorem two_zpow_add (k : ℤ) (n : ℕ) : (2 : ℚ) ^ (k + n) = 2 ^ k * 2 ^ n := by
  rw [zpow_add₀ (by norm_num), zpow_natCast]

theorem lt_two_zpow (hpos : 0 < q) : q < 2 ^ (lastPlace q + 53) := by
  have habs := abs_lt_two_zpow q
  rwa [abs_of_pos hpos] at habs

/-- Just below a power of two the doubles are closer by half. -/
theorem place_of_below (hd : Representable d) (hpos : 0 < d) (htpos : 0 < t)
    (hclose : |t - d| < 2 ^ lastPlace d / 2) (hlt : lastPlace t < lastPlace d) :
    d = 2 ^ (lastPlace d + 52) ∧ lastPlace d = lastPlace t + 1 := by
  obtain ⟨hlow, hhigh⟩ := abs_lt.mp hclose
  have hmin : -1074 ≤ lastPlace t := le_max_right _ _
  have hstep : (0 : ℚ) < 2 ^ lastPlace d := by positivity
  have hlog : lastPlace d = Int.log 2 d - 52 := by
    have hmax : lastPlace d = max (Int.log 2 d - 52) (-1074) := by
      rw [lastPlace, abs_of_pos hpos]
    omega
  have hdlow : (2 : ℚ) ^ (lastPlace d + 52) ≤ d := by
    have hself := Int.zpow_log_le_self (b := 2) (by decide) hpos
    rw [hlog, sub_add_cancel]
    exact_mod_cast hself
  have hthigh : t < 2 ^ (lastPlace d + 52) :=
    (lt_two_zpow htpos).trans_le (zpow_le_zpow_right₀ (by norm_num) (by omega))
  have hpower : d = 2 ^ (lastPlace d + 52) := by
    by_contra hne
    have hfar := hd.le_add (by omega) (lt_of_le_of_ne hdlow (Ne.symm hne))
    linarith
  refine ⟨hpower, ?_⟩
  have htlow : (2 : ℚ) ^ (lastPlace d + 51) ≤ t := by
    have hhalf := two_zpow_add (lastPlace d + 51) 1
    have hquarter := two_zpow_add (lastPlace d) 51
    rw [show lastPlace d + 51 + (1 : ℕ) = lastPlace d + 52 by omega] at hhalf
    push_cast at hquarter
    linarith
  have hlogt : lastPlace d + 51 ≤ Int.log 2 t :=
    (Int.zpow_le_iff_le_log (b := 2) (by decide) htpos).mp (by exact_mod_cast htlow)
  have hle : Int.log 2 t - 52 ≤ lastPlace t := by
    rw [lastPlace, abs_of_pos htpos]
    exact le_max_left _ _
  omega

/-- The doubles beside `d` are further away than `d / 2 ^ 53`. -/
theorem nearest_of_close (hd : Representable d) (hpos : 0 < d) (h : |t - d| * 2 ^ 54 < d) :
    nearest t = d := by
  obtain ⟨n, hn⟩ := hd.exists_eq
  have hclose : |t - d| < 2 ^ lastPlace d / 2 := by
    have hbits := lt_two_zpow hpos
    have htop := two_zpow_add (lastPlace d) 53
    push_cast at htop
    rw [htop] at hbits
    linarith
  have htpos : 0 < t := by
    have hle : d - t ≤ |t - d| := by
      rw [abs_sub_comm]
      exact le_abs_self _
    linarith
  have hplace : lastPlace t ≤ lastPlace d := by
    apply lastPlace_le_of_ne_zero htpos.ne'
    · have hroom := hd.add_le (by omega) (lt_two_zpow hpos)
      have hhigh := (abs_lt.mp hclose).2
      have hstep : (0 : ℚ) < 2 ^ lastPlace d := by positivity
      rw [abs_of_pos htpos]
      linarith
    · exact le_max_right _ _
  apply nearest_eq_of_place (hn.trans (scaled_eq hplace))
  rcases hplace.lt_or_eq with hlt | heq
  · obtain ⟨hpower, hnext⟩ := place_of_below hd hpos htpos hclose hlt
    have hdouble := two_zpow_add (lastPlace t) 53
    rw [show lastPlace t + (53 : ℕ) = lastPlace d + 52 by omega] at hdouble
    linarith
  · rw [heq]
    exact hclose

theorem abs_nearest_sub_mul_le (hq : 2 ^ (-1022 : ℤ) ≤ q) : |nearest q - q| * 2 ^ 53 ≤ q := by
  have hpos : 0 < q := lt_of_lt_of_le (by positivity) hq
  have hlog : -1022 ≤ Int.log 2 |q| := by
    rw [abs_of_pos hpos]
    exact (Int.zpow_le_iff_le_log (b := 2) (by decide) hpos).mp (by exact_mod_cast hq)
  have hplace : lastPlace q = Int.log 2 |q| - 52 := max_eq_left (by omega)
  have hself : (2 : ℚ) ^ lastPlace q * 2 ^ 52 ≤ q := by
    have hle := Int.zpow_log_le_self (b := 2) (r := |q|) (by decide) (abs_pos.mpr hpos.ne')
    rw [abs_of_pos hpos] at hle hplace
    have hsplit := two_zpow_add (lastPlace q) 52
    rw [hplace, show Int.log 2 q - 52 + (52 : ℕ) = Int.log 2 q by omega] at hsplit
    rw [hplace, ← hsplit]
    exact_mod_cast hle
  have herror := abs_nearest_sub_le q
  linarith

end Nearest

section Significant

variable {p : ℕ} {q t : ℚ} {m : ℕ} {x : ℤ}

/-- The digits as a number, and the exponent of the first of them. -/
def significant (p : ℕ) (q : ℚ) : ℕ × ℤ :=
  let x := Int.log 10 q
  let m := (halfEven (q / 10 ^ (x + 1 - p))).toNat
  if m = 10 ^ p then (10 ^ (p - 1), x + 1) else (m, x)

theorem significant_of_round (h : (halfEven (q / 10 ^ (Int.log 10 q + 1 - p))).toNat = 10 ^ p) :
    significant p q = (10 ^ (p - 1), Int.log 10 q + 1) :=
  if_pos h

theorem significant_of_ne (h : (halfEven (q / 10 ^ (Int.log 10 q + 1 - p))).toNat ≠ 10 ^ p) :
    significant p q =
      ((halfEven (q / 10 ^ (Int.log 10 q + 1 - p))).toNat, Int.log 10 q) :=
  if_neg h

def significantValue (p : ℕ) (d : ℕ × ℤ) : ℚ := d.1 * 10 ^ (d.2 + 1 - p)

theorem ten_zpow_add (x : ℤ) (n : ℕ) : (10 : ℚ) ^ (x + n) = 10 ^ x * 10 ^ n := by
  rw [zpow_add₀ (by norm_num), zpow_natCast]

theorem scaled_between (hp : 0 < p) (hq : 0 < q) :
    (10 : ℚ) ^ (p - 1) * 10 ^ (Int.log 10 q + 1 - p) ≤ q ∧
      q < 10 ^ p * 10 ^ (Int.log 10 q + 1 - p) := by
  have hself := Int.zpow_log_le_self (b := 10) (by decide) hq
  have hnext := Int.lt_zpow_succ_log_self (b := 10) (by decide) q
  push_cast at hself hnext
  have hlow := ten_zpow_add (Int.log 10 q + 1 - p) (p - 1)
  have hhigh := ten_zpow_add (Int.log 10 q + 1 - p) p
  rw [show Int.log 10 q + 1 - (p : ℤ) + ((p - 1 : ℕ) : ℤ) = Int.log 10 q by omega] at hlow
  rw [sub_add_cancel] at hhigh
  rw [mul_comm, ← hlow, mul_comm ((10 : ℚ) ^ p), ← hhigh]
  exact ⟨hself, hnext⟩

theorem halfEven_between (hp : 0 < p) (hq : 0 < q) :
    10 ^ (p - 1) ≤ halfEven (q / 10 ^ (Int.log 10 q + 1 - p)) ∧
      halfEven (q / 10 ^ (Int.log 10 q + 1 - p)) ≤ 10 ^ p := by
  obtain ⟨hlow, hhigh⟩ := scaled_between hp hq
  have hpos : (0 : ℚ) < 10 ^ (Int.log 10 q + 1 - p) := by positivity
  constructor
  · apply le_halfEven
    push_cast
    exact (le_div_iff₀ hpos).mpr hlow
  · apply halfEven_le
    push_cast
    exact (div_le_iff₀ hpos).mpr hhigh.le

theorem significant_bounds (hp : 0 < p) (hq : 0 < q) :
    10 ^ (p - 1) ≤ (significant p q).1 ∧ (significant p q).1 < 10 ^ p := by
  obtain ⟨hlow, hhigh⟩ := halfEven_between hp hq
  have hlow' : 10 ^ (p - 1) ≤ (halfEven (q / 10 ^ (Int.log 10 q + 1 - p))).toNat := by
    zify
    rw [Int.toNat_of_nonneg (le_trans (by positivity) hlow)]
    exact hlow
  have hhigh' : (halfEven (q / 10 ^ (Int.log 10 q + 1 - p))).toNat ≤ 10 ^ p := by
    zify
    rw [Int.toNat_of_nonneg (le_trans (by positivity) hlow)]
    exact hhigh
  by_cases hround : (halfEven (q / 10 ^ (Int.log 10 q + 1 - p))).toNat = 10 ^ p
  · rw [significant_of_round hround]
    exact ⟨le_rfl, Nat.pow_lt_pow_right (by decide) (by omega)⟩
  · rw [significant_of_ne hround]
    exact ⟨hlow', lt_of_le_of_ne hhigh' hround⟩

/-- The digits are those of the rounded number also where rounding adds one. -/
theorem significantValue_significant (hp : 0 < p) (hq : 0 < q) :
    significantValue p (significant p q) =
      halfEven (q / 10 ^ (Int.log 10 q + 1 - p)) * 10 ^ (Int.log 10 q + 1 - p) := by
  have hnonneg : 0 ≤ halfEven (q / 10 ^ (Int.log 10 q + 1 - p)) :=
    le_trans (by positivity) (halfEven_between hp hq).1
  have hcast : (((halfEven (q / 10 ^ (Int.log 10 q + 1 - p))).toNat : ℕ) : ℚ) =
      halfEven (q / 10 ^ (Int.log 10 q + 1 - p)) := by
    exact_mod_cast Int.toNat_of_nonneg hnonneg
  by_cases hround : (halfEven (q / 10 ^ (Int.log 10 q + 1 - p))).toNat = 10 ^ p
  · have hshift := ten_zpow_add (Int.log 10 q + 1 - p) 1
    have hpred : (10 : ℚ) ^ p = 10 ^ (p - 1) * 10 := by
      rw [← pow_succ, Nat.sub_add_cancel hp]
    rw [hround] at hcast
    push_cast at hcast
    rw [significant_of_round hround, significantValue]
    push_cast
    rw [← hcast, hpred, show Int.log 10 q + 1 + 1 - (p : ℤ) = Int.log 10 q + 1 - p + (1 : ℕ) by
      omega, hshift, pow_one]
    ring
  · rw [significant_of_ne hround, significantValue, hcast]

theorem abs_significantValue_sub_mul_le (hp : 0 < p) (hq : 0 < q) :
    |significantValue p (significant p q) - q| * (2 * 10 ^ (p - 1)) ≤ q := by
  have hpos : (0 : ℚ) < 10 ^ (Int.log 10 q + 1 - p) := by positivity
  have hten : (0 : ℚ) < 10 ^ (p - 1) := by positivity
  have hscaled : significantValue p (significant p q) - q =
      (halfEven (q / 10 ^ (Int.log 10 q + 1 - p)) - q / 10 ^ (Int.log 10 q + 1 - p)) *
        10 ^ (Int.log 10 q + 1 - p) := by
    rw [significantValue_significant hp hq]
    field_simp
  have hhalf := abs_halfEven_sub_le (q / 10 ^ (Int.log 10 q + 1 - p))
  rw [hscaled, abs_mul, abs_of_pos hpos]
  calc _ ≤ 1 / 2 * (10 : ℚ) ^ (Int.log 10 q + 1 - p) * (2 * 10 ^ (p - 1)) :=
        mul_le_mul_of_nonneg_right (mul_le_mul_of_nonneg_right hhalf hpos.le) (by positivity)
    _ = 10 ^ (p - 1) * 10 ^ (Int.log 10 q + 1 - p) := by ring
    _ ≤ q := (scaled_between hp hq).1

theorem log_eq_of_between {x : ℤ} (hlow : (10 : ℚ) ^ x ≤ q) (hhigh : q < 10 ^ (x + 1)) :
    Int.log 10 q = x := by
  have hpos : 0 < q := lt_of_lt_of_le (by positivity) hlow
  have hle : x ≤ Int.log 10 q :=
    (Int.zpow_le_iff_le_log (b := 10) (by decide) hpos).mp (by exact_mod_cast hlow)
  have hlt : Int.log 10 q < x + 1 :=
    (Int.lt_zpow_iff_log_lt (b := 10) (by decide) hpos).mp (by exact_mod_cast hhigh)
  omega

/-- Just below a power of ten, where the digits are finer. -/
theorem significant_of_below (hbelow : q < 10 ^ x) (h : |q - 10 ^ x| * (2 * 10 ^ p) < 10 ^ x) :
    significant p q = (10 ^ (p - 1), x) := by
  have hten : (1 : ℚ) ≤ 10 ^ p := one_le_pow₀ (by norm_num)
  have hprev : (10 : ℚ) ^ x = 10 ^ (x - 1) * 10 := by
    rw [← zpow_add_one₀ (by norm_num), sub_add_cancel]
  have hplaces : (10 : ℚ) ^ x = 10 ^ (x - p) * 10 ^ p := by
    rw [← ten_zpow_add, sub_add_cancel]
  have hfirst : (0 : ℚ) < 10 ^ (x - 1) := by positivity
  have hpos : (0 : ℚ) < 10 ^ (x - p) := by positivity
  have hlog : Int.log 10 q = x - 1 := by
    apply log_eq_of_between
    · have hleft : 10 ^ x - q ≤ |q - 10 ^ x| := by
        rw [abs_sub_comm]
        exact le_abs_self _
      have htwice : |q - 10 ^ x| * 2 ≤ |q - 10 ^ x| * (2 * 10 ^ p) :=
        mul_le_mul_of_nonneg_left (by linarith) (abs_nonneg _)
      linarith
    · rwa [sub_add_cancel]
  have hround : halfEven (q / 10 ^ (x - p)) = (10 ^ p : ℤ) := by
    apply halfEven_of_close
    have hscaled : q / 10 ^ (x - p) - ((10 ^ p : ℤ) : ℚ) = (q - 10 ^ x) / 10 ^ (x - p) := by
      push_cast
      rw [hplaces]
      field_simp
    have hchain : |q - 10 ^ x| * (2 * 10 ^ p) < 10 ^ (x - p) / 2 * (2 * 10 ^ p) := by
      calc _ < (10 : ℚ) ^ x := h
        _ = 10 ^ (x - p) / 2 * (2 * 10 ^ p) := by
          rw [hplaces]
          ring
    have hclose := lt_of_mul_lt_mul_right hchain (by positivity)
    rw [hscaled, abs_div, abs_of_pos hpos, div_lt_iff₀ hpos]
    linarith
  have hall : (halfEven (q / 10 ^ (Int.log 10 q + 1 - p))).toNat = 10 ^ p := by
    rw [hlog, sub_add_cancel, hround]
    norm_cast
  rw [significant_of_round hall, hlog, sub_add_cancel]

theorem ten_zpow_eq_first (hp : 0 < p) (x : ℤ) :
    (10 : ℚ) ^ x = 10 ^ (x + 1 - p) * 10 ^ (p - 1) := by
  rw [← ten_zpow_add]
  congr 1
  omega

/-- A relative bound of half a unit in `p` digits is an absolute one. -/
theorem lt_half_of_close (hhigh : m < 10 ^ p)
    (h : |q - significantValue p (m, x)| * (2 * 10 ^ p) < significantValue p (m, x)) :
    |q - significantValue p (m, x)| < 10 ^ (x + 1 - p) / 2 := by
  have hpos : (0 : ℚ) < 10 ^ (x + 1 - p) := by positivity
  have hm : (m : ℚ) < 10 ^ p := by exact_mod_cast hhigh
  have hchain : |q - significantValue p (m, x)| * (2 * 10 ^ p) <
      10 ^ (x + 1 - p) / 2 * (2 * 10 ^ p) := by
    calc _ < (m : ℚ) * 10 ^ (x + 1 - p) := h
      _ < 10 ^ p * 10 ^ (x + 1 - p) := mul_lt_mul_of_pos_right hm hpos
      _ = 10 ^ (x + 1 - p) / 2 * (2 * 10 ^ p) := by ring
  exact lt_of_mul_lt_mul_right hchain (by positivity)

/-- The only number of `p` digits that close to something below `10 ^ x` is
`10 ^ x` itself. -/
theorem eq_first_of_below (hp : 0 < p) (hlow : 10 ^ (p - 1) ≤ m) (hbelow : q < 10 ^ x)
    (hclose : |q - significantValue p (m, x)| < 10 ^ (x + 1 - p) / 2) : m = 10 ^ (p - 1) := by
  have hpos : (0 : ℚ) < 10 ^ (x + 1 - p) := by positivity
  by_contra hne
  have hmore : (10 : ℚ) ^ (p - 1) + 1 ≤ m := by exact_mod_cast lt_of_le_of_ne hlow (Ne.symm hne)
  have hfar : ((10 : ℚ) ^ (p - 1) + 1) * 10 ^ (x + 1 - p) ≤ m * 10 ^ (x + 1 - p) :=
    mul_le_mul_of_nonneg_right hmore hpos.le
  obtain ⟨hleft, -⟩ := abs_lt.mp hclose
  rw [significantValue] at hleft
  rw [ten_zpow_eq_first hp x] at hbelow
  linarith

theorem significant_of_above (habove : 10 ^ x ≤ q) (hhigh : m < 10 ^ p)
    (hclose : |q - significantValue p (m, x)| < 10 ^ (x + 1 - p) / 2) :
    significant p q = (m, x) := by
  have hpos : (0 : ℚ) < 10 ^ (x + 1 - p) := by positivity
  have hnext : (10 : ℚ) ^ (x + 1) = 10 ^ (x + 1 - p) * 10 ^ p := by
    rw [← ten_zpow_add, sub_add_cancel]
  have hm : (m : ℚ) + 1 ≤ 10 ^ p := by exact_mod_cast hhigh
  rw [significantValue] at hclose
  have hlog : Int.log 10 q = x := by
    apply log_eq_of_between habove
    have hroom : ((m : ℚ) + 1) * 10 ^ (x + 1 - p) ≤ 10 ^ p * 10 ^ (x + 1 - p) :=
      mul_le_mul_of_nonneg_right hm hpos.le
    obtain ⟨-, hright⟩ := abs_lt.mp hclose
    rw [hnext]
    linarith
  have hround : halfEven (q / 10 ^ (Int.log 10 q + 1 - p)) = m := by
    apply halfEven_of_close
    have hscaled : q / 10 ^ (x + 1 - p) - ((m : ℤ) : ℚ) =
        (q - m * 10 ^ (x + 1 - p)) / 10 ^ (x + 1 - p) := by
      push_cast
      field_simp
    rw [hlog, hscaled, abs_div, abs_of_pos hpos, div_lt_iff₀ hpos]
    linarith
  have hne : (halfEven (q / 10 ^ (Int.log 10 q + 1 - p))).toNat ≠ 10 ^ p := by
    rw [hround, Int.toNat_natCast]
    exact hhigh.ne
  rw [significant_of_ne hne, hround, Int.toNat_natCast, hlog]

/-- What is close enough to a number of `p` digits has these digits. -/
theorem significant_of_close (hp : 0 < p) (hlow : 10 ^ (p - 1) ≤ m) (hhigh : m < 10 ^ p)
    (h : |q - significantValue p (m, x)| * (2 * 10 ^ p) < significantValue p (m, x)) :
    significant p q = (m, x) := by
  have hclose := lt_half_of_close hhigh h
  by_cases hbelow : q < 10 ^ x
  · have hpower := eq_first_of_below hp hlow hbelow hclose
    have hvalue : significantValue p (m, x) = 10 ^ x := by
      rw [significantValue, hpower, ten_zpow_eq_first hp x]
      push_cast
      ring
    rw [hvalue] at h
    rw [hpower]
    exact significant_of_below hbelow h
  · exact significant_of_above (not_lt.mp hbelow) hhigh hclose

theorem two_zpow_le_ten_zpow {j : ℤ} (hj : j ≤ 1200) : (2 : ℚ) ^ j ≤ 10 ^ (400 : ℤ) := by
  calc (2 : ℚ) ^ j ≤ 2 ^ (3 * 400 : ℤ) := zpow_le_zpow_right₀ (by norm_num) (by omega)
    _ = (2 ^ (3 : ℤ)) ^ (400 : ℤ) := zpow_mul 2 3 400
    _ ≤ 10 ^ (400 : ℤ) := zpow_le_zpow_left₀ (by norm_num) (by norm_num) (by norm_num)

/-- The exponents of doubles have at most three digits. -/
theorem natAbs_exponent_lt (hlow : 2 ^ (-1074 : ℤ) ≤ q) (hhigh : q < 2 ^ (1024 : ℤ)) :
    (significant p q).2.natAbs < 1000 := by
  have hpos : 0 < q := lt_of_lt_of_le (by positivity) hlow
  have hge : -400 ≤ Int.log 10 q := by
    apply (Int.zpow_le_iff_le_log (b := 10) (by decide) hpos).mp
    refine le_trans ?_ hlow
    rw [zpow_neg, zpow_neg]
    exact inv_anti₀ (by positivity) (two_zpow_le_ten_zpow (by norm_num))
  have hlt : Int.log 10 q < 400 := by
    apply (Int.lt_zpow_iff_log_lt (b := 10) (by decide) hpos).mp
    exact hhigh.trans_le (two_zpow_le_ten_zpow (by norm_num))
  by_cases hround : (halfEven (q / 10 ^ (Int.log 10 q + 1 - p))).toNat = 10 ^ p
  · rw [significant_of_round hround]
    omega
  · rw [significant_of_ne hround]
    omega

theorem mul_lt_of_mul_le {a b c : ℚ} (hq : 0 < q) (ha : 0 ≤ a) (hbc : b < c) (h : a * c ≤ q) :
    a * b < q := by
  rcases ha.eq_or_lt with rfl | hpos
  · rwa [zero_mul]
  · exact (mul_lt_mul_of_pos_left hbc hpos).trans_le h

theorem nearest_significant_seventeen (hq : Representable q) (hpos : 0 < q) :
    nearest (significantValue 17 (significant 17 q)) = q := by
  apply nearest_of_close hq hpos
  apply mul_lt_of_mul_le hpos (abs_nonneg _) _ (abs_significantValue_sub_mul_le (by decide) hpos)
  norm_num

theorem significant_nearest_fifteen (hlow : 10 ^ 14 ≤ m) (hhigh : m < 10 ^ 15)
    (hnormal : 2 ^ (-1022 : ℤ) ≤ significantValue 15 (m, x)) :
    significant 15 (nearest (significantValue 15 (m, x))) = (m, x) := by
  have hpos : 0 < significantValue 15 (m, x) := lt_of_lt_of_le (by positivity) hnormal
  apply significant_of_close (by decide) hlow hhigh
  apply mul_lt_of_mul_le hpos (abs_nonneg _) _ (abs_nearest_sub_mul_le hnormal)
  norm_num

end Significant

end Binary64
