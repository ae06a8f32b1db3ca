import PcsSim.CJson.RoundTrip
import PcsSim.Lib.Double
import PcsSim.Modbus.Representable

/-!
# The digits of a number

`print_number` writes 15 digits where these are read back as a number that
`compare_double` takes for the same, and 17 digits otherwise, which are read
back exactly.
-/

namespace Binary64

/-- `DBL_EPSILON` -/
def dblEpsilon : Binary64 := finite (1 / 2 ^ 52)

def compareDouble (a b : Binary64) : Bool :=
  let maxVal := if b.abs.lt a.abs then a.abs else b.abs
  (a.sub b).abs.le (maxVal.mul dblEpsilon)

section Comparison

variable {x y : Binary64}

theorem larger_eq (a b : ℚ) :
    (if (finite b).lt (finite a) then finite a else finite b) = finite (max a b) := by
  rcases lt_or_ge b a with hlt | hle
  · have htrue : (finite b).lt (finite a) = true := by
      simp [lt, le, toRat, hlt.le, hlt.not_ge]
    rw [if_pos htrue, max_eq_left hlt.le]
  · have hfalse : ¬(finite b).lt (finite a) = true := by
      simp [lt, le, toRat, hle]
    rw [if_neg hfalse, max_eq_right hle]

theorem compareDouble_finite (hx : x.IsDouble) (hy : y.IsDouble) (hxf : x.isFinite)
    (hyf : y.isFinite) (hnormal : 2 ^ (-970 : ℤ) ≤ max |x.toRat| |y.toRat|) :
    compareDouble x y =
      (round (x.toRat - y.toRat)).abs.le (finite (max |x.toRat| |y.toRat| / 2 ^ 52)) := by
  obtain ⟨hmax, hrange⟩ : Representable (max |x.toRat| |y.toRat|) ∧
      max |x.toRat| |y.toRat| < 2 ^ 1024 := by
    rcases max_choice |x.toRat| |y.toRat| with h | h
    · rw [h]
      exact ⟨hx.toRat.1.abs, hx.toRat.2⟩
    · rw [h]
      exact ⟨hy.toRat.1.abs, hy.toRat.2⟩
  have hpos : 0 < max |x.toRat| |y.toRat| := lt_of_lt_of_le (by positivity) hnormal
  have hscaled : Representable (max |x.toRat| |y.toRat| / 2 ^ 52) := by
    apply hmax.div_two_pow
    rw [abs_of_pos hpos]
    exact hnormal
  have hsmall : |max |x.toRat| |y.toRat| / 2 ^ 52| < 2 ^ 1024 := by
    rw [abs_of_nonneg (by positivity)]
    exact (div_le_self hpos.le (by norm_num)).trans_lt hrange
  have hproduct : (finite (max |x.toRat| |y.toRat|)).mul dblEpsilon =
      finite (max |x.toRat| |y.toRat| / 2 ^ 52) := by
    change signed _ (max |x.toRat| |y.toRat| * (1 / 2 ^ 52)) = _
    rw [mul_one_div, signed_of_ne_zero (by positivity), round_of_representable hscaled hsmall]
  rw [compareDouble, abs_of_isFinite hxf, abs_of_isFinite hyf, sub_of_isFinite hxf hyf, abs_signed]
  rw [larger_eq, hproduct]

/-- The comparison is one of the exact difference. -/
theorem abs_sub_le_of_compareDouble (hx : x.IsDouble) (hy : y.IsDouble) (hxf : x.isFinite)
    (hyf : y.isFinite) (h : compareDouble x y)
    (hnormal : 2 ^ (-970 : ℤ) ≤ max |x.toRat| |y.toRat|) :
    |x.toRat - y.toRat| ≤ max |x.toRat| |y.toRat| / 2 ^ 52 := by
  rw [compareDouble_finite hx hy hxf hyf hnormal, abs_round] at h
  split_ifs at h with hrange
  · apply abs_sub_le_of_nearest hx.toRat.1 hy.toRat.1
    · exact of_decide_eq_true h
    · refine le_trans ?_ hnormal
      exact zpow_le_zpow_right₀ (by norm_num) (by norm_num)
  · cases h

end Comparison

end Binary64

namespace CJson

open Binary64 (IsDouble compareDouble nearest significant significantValue)

/-- The operations of the printer on doubles. -/
def Printing.binary64 : Printing Binary64 where
  toNumbers := .binary64
  isFinite := Binary64.isFinite
  format
    | p, .finite q => formatG p q
    | _, .negZero => ascii "-0"
    | _, .infinite negative => if negative then ascii "-inf" else ascii "inf"
    | _, .nan => ascii "nan"
  compareDouble := Binary64.compareDouble

theorem followsPrintf_binary64 : FollowsPrintf Printing.binary64 := by
  refine ⟨fun d hd p _ ↦ ?_⟩
  cases d with
  | finite q => exact ⟨Numeral.general p q, rfl⟩
  | negZero =>
      have htext : (Numeral.pointed true (Numeral.Digits.ofNat 0 0) 0 none).text = ascii "-0" := by
        decide
      exact ⟨_, htext.symm⟩
  | infinite negative => cases hd
  | nan => cases hd

section Texts

variable {q : ℚ}

theorem smallest_le (h : IsDouble (.finite q)) (hq : q ≠ 0) : (2 : ℚ) ^ (-1074 : ℤ) ≤ |q| := by
  obtain ⟨n, hn⟩ := h.1.exists_eq
  have hstep : (0 : ℚ) < 2 ^ Binary64.lastPlace q := by positivity
  have hne : n ≠ 0 := by
    rintro rfl
    exact hq (by rw [hn, Int.cast_zero, zero_mul])
  have hone : (1 : ℚ) ≤ |(n : ℚ)| := by exact_mod_cast Int.one_le_abs hne
  have habs : |q| = |(n : ℚ)| * 2 ^ Binary64.lastPlace q := by
    calc |q| = |(n : ℚ) * 2 ^ Binary64.lastPlace q| := congrArg _ hn
      _ = |(n : ℚ)| * 2 ^ Binary64.lastPlace q := by rw [abs_mul, abs_of_pos hstep]
  calc (2 : ℚ) ^ (-1074 : ℤ) ≤ 2 ^ Binary64.lastPlace q :=
        zpow_le_zpow_right₀ (by norm_num) (le_max_right _ _)
    _ ≤ |(n : ℚ)| * 2 ^ Binary64.lastPlace q := le_mul_of_one_le_left hstep.le hone
    _ = |q| := habs.symm

theorem length_formatG_le (h : IsDouble (.finite q)) {p : ℕ} (hp : 0 < p) :
    (formatG p q).length ≤ p + 7 := by
  apply Numeral.length_general_le hp
  intro hq
  apply Binary64.natAbs_exponent_lt (smallest_le h hq)
  exact_mod_cast h.2

theorem scanDouble_formatG (p : ℕ) (q : ℚ) :
    scanDouble .binary64 (formatG p q) = some (Printing.binary64.strtod (formatG p q)) := by
  obtain ⟨b, l, htext, -⟩ := exists_text_eq_cons (Numeral.general p q)
  have hlength : strtodLength (formatG p q) = (formatG p q).length := strtodLength_text _
  have hne : (formatG p q).length ≠ 0 := by
    rw [formatG, htext]
    exact Nat.succ_ne_zero _
  rw [scanDouble, hlength, if_neg hne, List.take_length]

theorem numberText_negZero : numberText .binary64 .negZero = ascii "-0" := by decide +kernel

theorem numberText_of_scan {D : Type} {ops : Printing D} {d test : D} (hd : ops.isFinite d)
    (htest : scanDouble ops (ops.format 15 d) = some test) :
    numberText ops d = if ops.compareDouble test d then ops.format 15 d else ops.format 17 d := by
  rw [numberText, if_pos hd, htest]

theorem numberText_finite (q : ℚ) :
    numberText .binary64 (.finite q) =
      if compareDouble (Printing.binary64.strtod (formatG 15 q)) (.finite q) then formatG 15 q
      else formatG 17 q :=
  @numberText_of_scan _ .binary64 (.finite q) _ rfl (scanDouble_formatG 15 q)

/-- A number of a tree that holds doubles fits the array of `print_number`. -/
theorem shortNumber_of_isDouble {x : CJson Binary64} (h : x.valuedouble.IsDouble) :
    ShortNumber .binary64 x := by
  intro _
  cases hd : x.valuedouble with
  | finite q =>
      rw [hd] at h
      have hfifteen : (formatG 15 q).length ≤ 22 := length_formatG_le h (by decide)
      have hseventeen : (formatG 17 q).length ≤ 24 := length_formatG_le h (by decide)
      rw [numberText_finite]
      split_ifs <;> omega
  | negZero =>
      rw [numberText_negZero]
      decide
  | infinite negative => exact (by decide : (ascii "null").length < 26)
  | nan => exact (by decide : (ascii "null").length < 26)

end Texts

section Digits

variable {q : ℚ}

theorem significantValue_pos {p : ℕ} (hp : 0 < p) (hq : 0 < q) :
    0 < significantValue p (significant p q) := by
  have hlow := (Binary64.significant_bounds hp hq).1
  have hdigits : (0 : ℚ) < (significant p q).1 := by
    exact_mod_cast lt_of_lt_of_le (by positivity) hlow
  exact mul_pos hdigits (by positivity)

theorem rounded_of_neg (p : ℕ) (hq : q < 0) :
    Numeral.rounded p q = -significantValue p (significant p (-q)) := by
  rw [Numeral.rounded, if_neg hq.ne, if_pos hq, abs_of_neg hq, neg_one_mul]

theorem rounded_of_pos (p : ℕ) (hq : 0 < q) :
    Numeral.rounded p q = significantValue p (significant p q) := by
  rw [Numeral.rounded, if_neg hq.ne', if_neg hq.not_gt, abs_of_pos hq, one_mul]

theorem rounded_zero (p : ℕ) : Numeral.rounded p 0 = 0 := if_pos rfl

/-- The digits have the sign of the number. -/
theorem rounded_neg_iff {p : ℕ} (hp : 0 < p) : Numeral.rounded p q < 0 ↔ q < 0 := by
  rcases lt_trichotomy q 0 with hneg | rfl | hpos
  · rw [rounded_of_neg p hneg]
    exact iff_of_true (neg_neg_of_pos (significantValue_pos hp (neg_pos.mpr hneg))) hneg
  · rw [rounded_zero]
  · rw [rounded_of_pos p hpos]
    exact iff_of_false (significantValue_pos hp hpos).not_gt hpos.not_gt

theorem rounded_ne_zero {p : ℕ} (hp : 0 < p) (hq : q ≠ 0) : Numeral.rounded p q ≠ 0 := by
  rcases lt_or_gt_of_ne hq with hneg | hpos
  · exact ((rounded_neg_iff hp).mpr hneg).ne
  · rw [rounded_of_pos p hpos]
    exact (significantValue_pos hp hpos).ne'

theorem strtod_formatG {p : ℕ} (hp : 0 < p) (q : ℚ) :
    Printing.binary64.strtod (formatG p q) = .round (Numeral.rounded p q) := by
  have hstrtod : Printing.binary64.strtod (formatG p q) =
      .signed ((formatG p q).head? = some 45) (Numeral.rounded p q) :=
    congrArg (Binary64.signed _) (decimalValue_formatG hp q)
  rw [hstrtod]
  by_cases hq : q = 0
  · have hsign : decide ((formatG p q).head? = some 45) = false := by
      rw [decide_eq_false_iff_not, formatG, head_text, hq, Numeral.general, if_pos rfl]
      exact Bool.false_ne_true
    rw [hsign, Binary64.signed_false]
  · exact Binary64.signed_of_ne_zero (rounded_ne_zero hp hq) _

theorem strtod_seventeen (h : IsDouble (.finite q)) :
    Printing.binary64.strtod (formatG 17 q) = .finite q := by
  have hnearest : nearest (Numeral.rounded 17 q) = q := by
    rcases lt_trichotomy q 0 with hneg | rfl | hpos
    · have hback := Binary64.nearest_significant_seventeen h.1.neg (neg_pos.mpr hneg)
      rw [rounded_of_neg 17 hneg, Binary64.nearest_neg, hback, neg_neg]
    · exact h.1
    · rw [rounded_of_pos 17 hpos, Binary64.nearest_significant_seventeen h.1 hpos]
  rw [strtod_formatG (by decide), Binary64.round_eq_finite, hnearest]
  · rw [hnearest]
    intro hq
    rw [hq, rounded_zero]
  · rw [hnearest]
    exact h.2

variable {d : Binary64}

/-- What is read back is the number, or the 15 digits that compare well. -/
theorem strtod_numberText (h : d.IsDouble) (hd : d.isFinite) :
    Printing.binary64.strtod (numberText .binary64 d) = d ∨
      ∃ q, d = .finite q ∧ numberText .binary64 d = formatG 15 q ∧
        compareDouble (Printing.binary64.strtod (formatG 15 q)) d := by
  cases d with
  | finite q =>
      rw [numberText_finite]
      split_ifs with hcompare
      · exact .inr ⟨q, rfl, rfl, hcompare⟩
      · exact .inl (strtod_seventeen h)
  | negZero =>
      rw [numberText_negZero]
      exact .inl (by decide +kernel)
  | infinite negative => cases hd
  | nan => cases hd

theorem abs_rounded_sub_le {p : ℕ} (hp : 0 < p) (q : ℚ) :
    |Numeral.rounded p q - q| * (2 * 10 ^ (p - 1)) ≤ |q| := by
  rcases lt_trichotomy q 0 with hneg | rfl | hpos
  · have hclose := Binary64.abs_significantValue_sub_mul_le hp (neg_pos.mpr hneg)
    have hflip : -significantValue p (significant p (-q)) - q =
        -(significantValue p (significant p (-q)) - -q) := by ring
    rw [rounded_of_neg p hneg, abs_of_neg hneg, hflip, abs_neg]
    exact hclose
  · rw [rounded_zero, sub_self, abs_zero, zero_mul]
  · rw [rounded_of_pos p hpos, abs_of_pos hpos]
    exact Binary64.abs_significantValue_sub_mul_le hp hpos

theorem abs_rounded_le {top : ℚ} (h : |q| ≤ 2 * top) : |Numeral.rounded 15 q| ≤ 3 * top := by
  have herror : |Numeral.rounded 15 q - q| * (2 * 10 ^ 14) ≤ |q| :=
    abs_rounded_sub_le (by decide) q
  have htriangle := abs_sub_abs_le_abs_sub (Numeral.rounded 15 q) q
  linarith [abs_nonneg q]

theorem strtod_fifteen_finite (h : |q| ≤ 2 ^ (1023 : ℤ)) :
    (Printing.binary64.strtod (formatG 15 q)).isFinite := by
  have hdouble (k : ℤ) : (2 : ℚ) ^ (k + 1) = 2 * 2 ^ k := by
    rw [zpow_add_one₀ (by norm_num), mul_comm]
  have hbound : |Numeral.rounded 15 q| ≤ (3 : ℤ) * 2 ^ (1022 : ℤ) := by
    rw [Int.cast_ofNat]
    apply abs_rounded_le
    rwa [← hdouble]
  have htop : ((3 : ℤ) : ℚ) * 2 ^ (1022 : ℤ) < 2 ^ (1024 : ℤ) := by
    have hpos : (0 : ℚ) < 2 ^ (1022 : ℤ) := by positivity
    rw [show (1024 : ℤ) = 1022 + 1 + 1 by norm_num, hdouble, hdouble, ← mul_assoc]
    exact mul_lt_mul_of_pos_right (by norm_num) hpos
  have hplace : Binary64.lastPlace |Numeral.rounded 15 q| ≤ 1022 := by
    apply Binary64.lastPlace_le _ (by norm_num)
    rw [abs_abs]
    refine (hbound.trans_lt htop).trans_le ?_
    exact zpow_le_zpow_right₀ (by norm_num) (by norm_num)
  have hnearest := Binary64.nearest_le hplace hbound
  rw [Binary64.nearest_abs] at hnearest
  have hrange : |nearest (Numeral.rounded 15 q)| < 2 ^ 1024 := by
    exact_mod_cast hnearest.trans_lt htop
  rw [strtod_formatG (by decide)]
  exact Binary64.isFinite_round hrange

/-- Digits that are few enough come back as the number that is nearest to them. -/
theorem rounded_nearest_fifteen {m : ℕ} {x : ℤ} (hlow : 10 ^ 14 ≤ m) (hhigh : m < 10 ^ 15)
    (hnormal : 2 ^ (-1022 : ℤ) ≤ significantValue 15 (m, x)) :
    Numeral.rounded 15 (nearest (significantValue 15 (m, x))) = significantValue 15 (m, x) := by
  have hpos : 0 < nearest (significantValue 15 (m, x)) := by
    have hhalf := Binary64.half_le_nearest hnormal
    have htiny : (0 : ℚ) < 2 ^ (-1022 : ℤ) := by positivity
    linarith
  rw [Numeral.rounded, if_neg hpos.ne', if_neg hpos.not_gt, one_mul, abs_of_pos hpos,
    Binary64.significant_nearest_fifteen hlow hhigh hnormal]

theorem rounded_neg (p : ℕ) (q : ℚ) : Numeral.rounded p (-q) = -Numeral.rounded p q := by
  simp only [Numeral.rounded, neg_eq_zero, abs_neg, Left.neg_neg_iff]
  rcases lt_trichotomy q 0 with hneg | rfl | hpos
  · rw [if_neg hneg.ne, if_neg hneg.ne, if_neg hneg.not_gt, if_pos hneg]
    ring
  · simp
  · rw [if_neg hpos.ne', if_neg hpos.ne', if_pos hpos, if_neg hpos.not_gt]
    ring

/-- A decimal of at most 15 digits, not too small. -/
structure ShortDecimal (v : ℚ) : Prop where
  digits : ∃ (n : ℕ) (k : ℤ), n < 10 ^ 15 ∧ |v| = n * 10 ^ k
  normal : v ≠ 0 → 2 ^ (-1022 : ℤ) ≤ |v|

theorem ShortDecimal.exists_significant {v : ℚ} (h : ShortDecimal v) (hv : v ≠ 0) :
    ∃ m x, 10 ^ 14 ≤ m ∧ m < 10 ^ 15 ∧ |v| = significantValue 15 (m, x) := by
  obtain ⟨n, k, hn, hvalue⟩ := h.digits
  have hne : n ≠ 0 := by
    rintro rfl
    rw [Nat.cast_zero, zero_mul, abs_eq_zero] at hvalue
    exact hv hvalue
  have hlog : Nat.log 10 n < 15 := Nat.log_lt_of_lt_pow hne hn
  obtain ⟨j, hj⟩ : ∃ j, Nat.log 10 n + j = 14 := ⟨14 - Nat.log 10 n, by omega⟩
  refine ⟨n * 10 ^ j, k - j + 14, ?_, ?_, ?_⟩
  · rw [← hj, pow_add]
    exact Nat.mul_le_mul_right _ (Nat.pow_log_le_self 10 hne)
  · rw [show 15 = Nat.log 10 n + 1 + j by omega, pow_add]
    exact Nat.mul_lt_mul_of_pos_right (Nat.lt_pow_succ_log_self (by norm_num) n) (by positivity)
  · rw [hvalue, significantValue]
    push_cast
    rw [show k - j + 14 + 1 - 15 = k - j by ring, zpow_sub₀ (by norm_num), zpow_natCast]
    field_simp

/-- It is not rounded to zero. -/
theorem ShortDecimal.eq_zero {v : ℚ} (h : ShortDecimal v) (hzero : nearest v = 0) : v = 0 := by
  by_contra hv
  have hhalf := Binary64.half_le_nearest (h.normal hv)
  rw [Binary64.nearest_abs, hzero, abs_zero] at hhalf
  have hpos := abs_pos.mpr hv
  linarith

theorem rounded_nearest {v : ℚ} (h : ShortDecimal v) : Numeral.rounded 15 (nearest v) = v := by
  rcases lt_trichotomy v 0 with hneg | rfl | hpos
  · obtain ⟨m, x, hlow, hhigh, hvalue⟩ := h.exists_significant hneg.ne
    have hnormal := h.normal hneg.ne
    have hback := rounded_nearest_fifteen hlow hhigh (by rwa [← hvalue])
    rw [← hvalue, abs_of_neg hneg, Binary64.nearest_neg, rounded_neg, neg_inj] at hback
    exact hback
  · rw [Binary64.nearest_zero]
    exact if_pos rfl
  · obtain ⟨m, x, hlow, hhigh, hvalue⟩ := h.exists_significant hpos.ne'
    have hnormal := h.normal hpos.ne'
    have hback := rounded_nearest_fifteen hlow hhigh (by rwa [← hvalue])
    rwa [← hvalue, abs_of_pos hpos] at hback

end Digits

section ReadBack

variable {d : Binary64} {q : ℚ}

/-- What is read back of the digits of `d`.  Close to the largest double that
may be an infinity, which `compare_double` takes for any number. -/
structure ReadsBack (d r : Binary64) : Prop where
  compared : r = d ∨ compareDouble r d
  sign : r.negative = d.negative
  near : 2 ^ (-970 : ℤ) ≤ |d.toRat| → |d.toRat| ≤ 2 ^ (1023 : ℤ) →
    r.isFinite ∧ |r.toRat - d.toRat| ≤ max |r.toRat| |d.toRat| / 2 ^ 52
  decimal : ∀ v, ShortDecimal v → d.toRat = nearest v → r = d

theorem readsBack_self (hd : d.isFinite) : ReadsBack d d := by
  refine ⟨.inl rfl, rfl, fun _ _ ↦ ⟨hd, ?_⟩, fun _ _ _ ↦ rfl⟩
  rw [sub_self, abs_zero]
  positivity

theorem readsBack_fifteen (h : IsDouble (.finite q))
    (hcompare : compareDouble (Printing.binary64.strtod (formatG 15 q)) (.finite q)) :
    ReadsBack (.finite q) (Printing.binary64.strtod (formatG 15 q)) := by
  refine ⟨.inr hcompare, ?_, fun hlow hhigh ↦ ?_, fun v hv hq ↦ ?_⟩
  · rw [strtod_formatG (by decide), Binary64.negative_round]
    exact decide_eq_decide.mpr (rounded_neg_iff (by decide))
  · have hfinite := strtod_fifteen_finite hhigh
    have hdouble : (Printing.binary64.strtod (formatG 15 q)).IsDouble := by
      rw [strtod_formatG (by decide)]
      exact Binary64.isDouble_round _
    exact ⟨hfinite, Binary64.abs_sub_le_of_compareDouble hdouble h hfinite rfl hcompare
      (hlow.trans (le_max_right _ _))⟩
  · change q = nearest v at hq
    rw [strtod_formatG (by decide), hq, rounded_nearest hv, Binary64.round_eq_finite]
    · exact fun hzero ↦ (hv.eq_zero hzero).ge
    · rw [← hq]
      exact h.2

theorem readsBack_numberText (h : d.IsDouble) (hd : d.isFinite) :
    ReadsBack d (Printing.binary64.strtod (numberText .binary64 d)) := by
  rcases strtod_numberText h hd with hexact | ⟨q, rfl, htext, hcompare⟩
  · rw [hexact]
    exact readsBack_self hd
  · rw [htext]
    exact readsBack_fifteen h hcompare

end ReadBack

section Construction

variable {D : Type}

def createNumber (ops : Numbers D) (num : D) : CJson D :=
  { newItem ops .number with valuedouble := num, valueint := ops.valueint num }

def createObject (ops : Numbers D) : CJson D := newItem ops .object

def addItemToObject (object : CJson D) (name : Bytes) (item : CJson D) : CJson D :=
  { object with child := object.child ++ [{ item with string := some name }] }

def addNumberToObject (ops : Numbers D) (object : CJson D) (name : Bytes) (number : D) : CJson D :=
  object.addItemToObject name (createNumber ops number)

theorem readable_createNumber {d : Binary64} (h : d.IsDouble) :
    Everywhere (Readable .binary64) (createNumber Numbers.binary64 d) := by
  refine .item ⟨⟨shortNumber_of_isDouble h, ?_, ?_⟩, ?_⟩ ?_
  · exact List.not_mem_nil
  · exact List.not_mem_nil
  · exact ⟨CJsonType.noConfusion, CJsonType.noConfusion⟩
  · exact List.forall_mem_nil _

theorem within_createNumber (ops : Numbers D) (n : ℕ) (num : D) : Within n (createNumber ops num) :=
  .leaf CJsonType.noConfusion CJsonType.noConfusion

/-- A number is printed, and parsed again. -/
theorem createNumber_round_trip {d : Binary64} (h : d.IsDouble) (hd : d.isFinite) (format : Bool) :
    ∃ text r, print .binary64 format (createNumber Numbers.binary64 d) = .ok text ∧
      text.length < 26 ∧ parse Numbers.binary64 text = some (createNumber Numbers.binary64 r) ∧
      ReadsBack d r := by
  have hreadable := readable_createNumber h
  have hshort : (numberText .binary64 d).length < 26 := hreadable.here.number rfl
  have hprint := print_of_readable hreadable format
  have hroom : (numberText .binary64 d).length + 2 ≤ maxSize := by
    have hmax : maxSize = 2147483647 := rfl
    omega
  have hparse := parse_printed followsPrintf_binary64 hreadable (within_createNumber _ _ _) format
  have hreread : reread .binary64 (createNumber Numbers.binary64 d) =
      createNumber Numbers.binary64 (Printing.binary64.strtod (numberText .binary64 d)) := if_pos hd
  rw [hreread] at hparse
  exact ⟨_, _, hprint.trans (if_pos hroom), hshort, hparse, readsBack_numberText h hd⟩

/-- The double nearest to 400.1. -/
theorem createNumber_round_trip_decimal :
    ∃ text r, print .binary64 false
        (createNumber Numbers.binary64 (.finite (nearest (4001 / 10)))) = .ok text ∧
      text.length < 26 ∧ parse Numbers.binary64 text = some (createNumber Numbers.binary64 r) ∧
      ReadsBack (.finite (nearest (4001 / 10))) r := by
  have hrange : |nearest (4001 / 10)| < 2 ^ 1024 := by decide +kernel
  have hdouble : IsDouble (.finite (nearest (4001 / 10))) :=
    ⟨Binary64.representable_nearest _, hrange⟩
  exact createNumber_round_trip hdouble rfl false

/-- A number under a name that needs escapes. -/
def quotedNumber : CJson Binary64 :=
  addNumberToObject .binary64 (createObject .binary64) (ascii "a\"\n") (.finite 0)

theorem print_round_trip_quoted :
    (∃ text, print .binary64 true quotedNumber = .ok text ∧ Legible quotedNumber ∧
      text.length + 2 ≤ maxSize ∧ text = printed .binary64 true quotedNumber 0 ∧
      (Everywhere Ordinary quotedNumber →
        parse Numbers.binary64 text = some (reread .binary64 quotedNumber))) ∨
    print .binary64 true quotedNumber = .error .refused ∧
      (¬Legible quotedNumber ∨ maxSize < (printed .binary64 true quotedNumber 0).length + 2) := by
  have hname : 0 ∉ ascii "a\"\n" := by decide
  have hprintable : Everywhere (Printable .binary64) quotedNumber := by
    refine .item ⟨CJsonType.noConfusion, List.not_mem_nil, List.not_mem_nil⟩ ?_
    rintro y (_ | ⟨_, hy⟩)
    · cases readable_createNumber (Binary64.isDouble_zero false) with
      | item here below =>
          exact .item ⟨here.number, here.valuestring, hname⟩ fun y hy ↦
            (below y hy).imp fun _ h ↦ h.toPrintable
    · cases hy
  have hdepth : Within nestingLimit quotedNumber := by
    apply Within.nested (n := 999)
    rintro y (_ | ⟨_, hy⟩)
    · exact .leaf CJsonType.noConfusion CJsonType.noConfusion
    · cases hy
  exact print_round_trip followsPrintf_binary64 hprintable hdepth true

end Construction

end CJson
