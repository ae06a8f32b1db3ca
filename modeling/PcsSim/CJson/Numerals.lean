import PcsSim.CJson.Compose
import PcsSim.Lib.GeneralFormat
import PcsSim.Mqtt.CacheRoundTrip

/-!
# Reading numerals

What `%g` writes is a number to `strtod` from its first byte to its last, and
the value of the text is that of the digits that were written.
-/

namespace CJson

variable {n : Numeral}

theorem isDigit_iff {b : UInt8} : isDigit b ↔ isDecimalDigit b := by
  rw [isDigit, isDecimalDigit, decide_eq_true_iff]

def numeralValue (n : Numeral) : ℚ :=
  (if n.negative then -1 else 1) * digitsValue (n.whole ++ n.fraction) *
    10 ^ (n.exponent.getD 0 - n.fraction.length)

section Text

theorem text_eq (n : Numeral) :
    n.text = n.sign ++ (n.whole ++ (n.point ++ Numeral.exponentText n.exponent)) := by
  rw [Numeral.text, List.append_assoc, List.append_assoc]

theorem takeWhile_digits {digits l : Bytes} (hdigits : ∀ b ∈ digits, isDecimalDigit b)
    (hl : ∀ b ∈ l.head?, ¬isDigit b) : (digits ++ l).takeWhile isDigit = digits := by
  rw [List.takeWhile_append_of_pos fun b hb ↦ isDigit_iff.mpr (hdigits b hb)]
  cases l with
  | nil => rw [List.takeWhile_nil, List.append_nil]
  | cons b l =>
      rw [List.takeWhile_cons_of_neg (hl b rfl), List.append_nil]

theorem signLength_of_digits {digits : Bytes} (hne : digits ≠ [])
    (hdigits : ∀ b ∈ digits, isDecimalDigit b) (l : Bytes) : signLength (digits ++ l) = 0 := by
  obtain ⟨b, rest, rfl⟩ := List.exists_cons_of_ne_nil hne
  have hb := isDigit_iff.mpr (hdigits b List.mem_cons_self)
  have hnosign : ¬(b = 43 ∨ b = 45) := by
    rintro (rfl | rfl) <;> exact absurd hb (by decide)
  rw [List.cons_append, signLength, if_neg hnosign]

theorem signLength_sign (n : Numeral) (l : Bytes) :
    signLength (n.sign ++ (n.whole ++ l)) = n.sign.length := by
  rw [Numeral.sign]
  split_ifs
  · rfl
  · exact signLength_of_digits n.whole_ne_nil n.whole_digits l

theorem head_exponentText (exponent : Option ℤ) :
    ∀ b ∈ (Numeral.exponentText exponent).head?, b = 101 := by
  cases exponent with
  | none =>
      intro b hb
      cases hb
  | some x =>
      intro b hb
      exact (Option.some.inj hb).symm

theorem head_point (n : Numeral) :
    ∀ b ∈ (n.point ++ Numeral.exponentText n.exponent).head?, ¬isDigit b := by
  intro b hb
  rw [Numeral.point] at hb
  split_ifs at hb
  · rw [head_exponentText n.exponent b hb]
    decide
  · rw [← Option.some.inj hb]
    decide

theorem digits_exponentDigits (x : ℤ) : ∀ b ∈ Numeral.exponentDigits x, isDecimalDigit b := by
  intro b hb
  rw [Numeral.exponentDigits] at hb
  split_ifs at hb
  · rcases List.mem_cons.mp hb with rfl | hb
    · exact ⟨by decide, by decide⟩
    · exact digit_of_mem_decimalNat hb
  · exact digit_of_mem_decimalNat hb

theorem exponentDigits_ne_nil (x : ℤ) : Numeral.exponentDigits x ≠ [] := by
  rw [Numeral.exponentDigits]
  split_ifs
  · exact List.cons_ne_nil _ _
  · exact decimalNat_ne_nil _

theorem digitsValue_exponentDigits (x : ℤ) :
    digitsValue (Numeral.exponentDigits x) = x.natAbs := by
  rw [Numeral.exponentDigits]
  split_ifs
  · have hzero : ∀ l, digitsValue (48 :: l) = digitsValue l := fun _ ↦ rfl
    rw [hzero, MqttCache.digitsValue_decimalNat]
  · exact MqttCache.digitsValue_decimalNat _

theorem exponentLength_exponentText (exponent : Option ℤ) :
    exponentLength (Numeral.exponentText exponent) = (Numeral.exponentText exponent).length := by
  cases exponent with
  | none => rfl
  | some x =>
      have hall : (Numeral.exponentDigits x).takeWhile isDigit = Numeral.exponentDigits x :=
        List.takeWhile_eq_self_iff.mpr fun b hb ↦ isDigit_iff.mpr (digits_exponentDigits x b hb)
      have hsome : (Numeral.exponentDigits x).length ≠ 0 :=
        fun hzero ↦ exponentDigits_ne_nil x (List.length_eq_zero_iff.mp hzero)
      have hsign : signLength ((if x < 0 then 45 else 43) :: Numeral.exponentDigits x) = 1 := by
        split_ifs <;> rfl
      rw [Numeral.exponentText, exponentLength, if_pos (.inl rfl), hsign, List.drop_succ_cons,
        List.drop_zero, hall, if_neg hsome]
      simp only [List.length_cons]
      omega

theorem drop_sign (n : Numeral) :
    n.text.drop n.sign.length = n.whole ++ (n.point ++ Numeral.exponentText n.exponent) := by
  rw [text_eq, List.drop_left]

theorem drop_whole (n : Numeral) :
    n.text.drop (n.sign.length + n.whole.length) = n.point ++ Numeral.exponentText n.exponent := by
  rw [← List.drop_drop, drop_sign, List.drop_left]

theorem drop_point (n : Numeral) :
    n.text.drop (n.sign.length + n.whole.length + n.point.length) =
      Numeral.exponentText n.exponent := by
  rw [← List.drop_drop, drop_whole, List.drop_left]

theorem takeWhile_whole (n : Numeral) :
    (n.text.drop n.sign.length).takeWhile isDigit = n.whole := by
  rw [drop_sign, takeWhile_digits n.whole_digits (head_point n)]

theorem head_exponentText_not_digit (exponent : Option ℤ) :
    ∀ b ∈ (Numeral.exponentText exponent).head?, ¬isDigit b := by
  intro b hb
  rw [head_exponentText exponent b hb]
  decide

theorem strtodLength_text (n : Numeral) : strtodLength n.text = n.text.length := by
  have hsign : signLength n.text = n.sign.length := by
    rw [text_eq, signLength_sign]
  have hlength : n.text.length = n.sign.length + n.whole.length + n.point.length +
      (Numeral.exponentText n.exponent).length := by
    rw [Numeral.text, List.length_append, List.length_append, List.length_append]
  have hwhole : n.whole.length ≠ 0 :=
    fun hzero ↦ n.whole_ne_nil (List.length_eq_zero_iff.mp hzero)
  have hexponent := exponentLength_exponentText n.exponent
  by_cases hfraction : n.fraction = []
  · have hpoint : n.point = [] := if_pos hfraction
    have hrest : n.text.drop (n.sign.length + n.whole.length) =
        Numeral.exponentText n.exponent := by
      rw [drop_whole, hpoint, List.nil_append]
    have hnone : (Numeral.exponentText n.exponent).head? ≠ some 46 := by
      intro hhead
      exact absurd (head_exponentText n.exponent 46 hhead) (by decide)
    simp only [strtodLength, hsign, takeWhile_whole, hrest, if_neg hnone, if_true, Nat.add_zero,
      if_neg hwhole, hexponent]
    rw [hlength, hpoint, List.length_nil, Nat.add_zero]
  · have hpoint : n.point = 46 :: n.fraction := if_neg hfraction
    have hhead : (n.text.drop (n.sign.length + n.whole.length)).head? = some 46 := by
      rw [drop_whole, hpoint]
      rfl
    have hdigits : (n.text.drop (n.sign.length + n.whole.length + 1)).takeWhile isDigit =
        n.fraction := by
      rw [← List.drop_drop, drop_whole, hpoint, List.cons_append, List.drop_succ_cons,
        List.drop_zero, takeWhile_digits n.fraction_digits (head_exponentText_not_digit _)]
    have hrest := drop_point n
    rw [hpoint, List.length_cons, Nat.add_comm n.fraction.length, ← Nat.add_assoc] at hrest
    simp only [strtodLength, hsign, takeWhile_whole, hhead, if_true, Nat.one_ne_zero, if_false,
      hdigits, Nat.add_eq_zero_iff, hwhole, false_and, hrest, hexponent]
    rw [hlength, hpoint, List.length_cons]
    omega

theorem numberByte_of_digit {b : UInt8} (hb : isDecimalDigit b) : isNumberByte b := by
  simp [isNumberByte, isDigit_iff.mpr hb]

theorem numberByte_of_mem_text {b : UInt8} (hb : b ∈ n.text) : isNumberByte b := by
  rw [text_eq] at hb
  rcases List.mem_append.mp hb with hb | hb
  · rw [Numeral.sign] at hb
    split_ifs at hb
    · rw [List.mem_singleton.mp hb]
      decide
    · cases hb
  rcases List.mem_append.mp hb with hb | hb
  · exact numberByte_of_digit (n.whole_digits b hb)
  rcases List.mem_append.mp hb with hb | hb
  · rw [Numeral.point] at hb
    split_ifs at hb
    · cases hb
    · rcases List.mem_cons.mp hb with rfl | hb
      · decide
      · exact numberByte_of_digit (n.fraction_digits b hb)
  · cases hexponent : n.exponent with
    | none =>
        rw [hexponent] at hb
        cases hb
    | some x =>
        rw [hexponent, Numeral.exponentText] at hb
        rcases List.mem_cons.mp hb with rfl | hb
        · decide
        rcases List.mem_cons.mp hb with rfl | hb
        · split_ifs <;> decide
        · exact numberByte_of_digit (digits_exponentDigits x b hb)

theorem exists_text_eq_cons (n : Numeral) :
    ∃ b l, n.text = b :: l ∧ (b = 45 ∨ isDigit b) := by
  rw [text_eq, Numeral.sign]
  split_ifs
  · exact ⟨45, _, rfl, .inl rfl⟩
  · obtain ⟨b, l, hl⟩ := List.exists_cons_of_ne_nil n.whole_ne_nil
    refine ⟨b, l ++ (n.point ++ Numeral.exponentText n.exponent), ?_, .inr ?_⟩
    · rw [hl]
      rfl
    · exact isDigit_iff.mpr (n.whole_digits b (hl ▸ List.mem_cons_self))

theorem dropWhile_text (n : Numeral) :
    (n.whole ++ (n.point ++ Numeral.exponentText n.exponent)).dropWhile
      (fun b ↦ b ≠ 101 ∧ b ≠ 69) = Numeral.exponentText n.exponent := by
  have hdigit : ∀ b, isDecimalDigit b → decide (b ≠ 101 ∧ b ≠ 69) = true := by
    intro b hb
    apply decide_eq_true
    constructor
    · rintro rfl
      exact absurd hb.2 (by decide)
    · rintro rfl
      exact absurd hb.2 (by decide)
  have hpoint : ∀ b ∈ n.point, decide (b ≠ 101 ∧ b ≠ 69) = true := by
    intro b hb
    rw [Numeral.point] at hb
    split_ifs at hb
    · cases hb
    · rcases List.mem_cons.mp hb with rfl | hb
      · decide
      · exact hdigit b (n.fraction_digits b hb)
  rw [List.dropWhile_append_of_pos fun b hb ↦ hdigit b (n.whole_digits b hb),
    List.dropWhile_append_of_pos hpoint]
  cases n.exponent with
  | none => rfl
  | some x => exact List.dropWhile_cons_of_neg (by decide)

def readFraction : Bytes → Bytes
  | 46 :: l => l.takeWhile isDigit
  | _ => []

def readExponent : Bytes → ℤ
  | [] => 0
  | _ :: l =>
    let size := digitsValue (l.drop (signLength l))
    if l.head? = some 45 then -size else size

theorem decimalValue_eq (text : Bytes) :
    decimalValue text =
      (let unsigned := text.drop (signLength text)
      let whole := unsigned.takeWhile isDigit
      let fraction := readFraction (unsigned.drop whole.length)
      let exponent := readExponent (unsigned.dropWhile fun b ↦ b ≠ 101 ∧ b ≠ 69)
      let magnitude : ℚ := digitsValue (whole ++ fraction) * 10 ^ (exponent - fraction.length)
      if text.head? = some 45 then -magnitude else magnitude) := rfl

theorem readFraction_text (n : Numeral) :
    readFraction (n.point ++ Numeral.exponentText n.exponent) = n.fraction := by
  by_cases hfraction : n.fraction = []
  · have hpoint : n.point = [] := if_pos hfraction
    rw [hpoint, hfraction, List.nil_append]
    cases n.exponent with
    | none => rfl
    | some x => rfl
  · have hpoint : n.point = 46 :: n.fraction := if_neg hfraction
    rw [hpoint, List.cons_append]
    exact takeWhile_digits n.fraction_digits (head_exponentText_not_digit _)

theorem readExponent_text (exponent : Option ℤ) :
    readExponent (Numeral.exponentText exponent) = exponent.getD 0 := by
  cases exponent with
  | none => rfl
  | some x =>
      have hsize := digitsValue_exponentDigits x
      rw [Numeral.exponentText]
      by_cases hx : x < 0
      · have hminus : -(digitsValue (Numeral.exponentDigits x) : ℤ) = x := by omega
        rw [if_pos hx]
        exact hminus
      · have hplus : (digitsValue (Numeral.exponentDigits x) : ℤ) = x := by omega
        rw [if_neg hx]
        exact hplus

theorem head_text (n : Numeral) : n.text.head? = some 45 ↔ n.negative := by
  rw [text_eq, Numeral.sign]
  cases n.negative with
  | true => exact iff_of_true rfl rfl
  | false =>
      refine iff_of_false ?_ Bool.false_ne_true
      obtain ⟨b, l, hl⟩ := List.exists_cons_of_ne_nil n.whole_ne_nil
      have hb : isDecimalDigit b := n.whole_digits b (hl ▸ List.mem_cons_self)
      intro hhead
      rw [hl] at hhead
      obtain rfl : b = 45 := Option.some.inj hhead
      exact absurd hb.1 (by decide)

theorem decimalValue_text (n : Numeral) : decimalValue n.text = numeralValue n := by
  have hsign : signLength n.text = n.sign.length := by
    rw [text_eq, signLength_sign]
  have hwhole : (n.whole ++ (n.point ++ Numeral.exponentText n.exponent)).takeWhile isDigit =
      n.whole :=
    takeWhile_digits n.whole_digits (head_point n)
  rw [decimalValue_eq]
  simp only [hsign, drop_sign, hwhole, List.drop_left, readFraction_text, dropWhile_text,
    readExponent_text, head_text]
  rw [numeralValue]
  cases n.negative with
  | true =>
      rw [if_pos rfl, if_pos rfl]
      ring
  | false =>
      rw [if_neg Bool.false_ne_true, if_neg Bool.false_ne_true, one_mul]

end Text

section Values

theorem digitsValue_append (l digits : Bytes) :
    digitsValue (l ++ digits) = digits.foldl (fun n b ↦ 10 * n + (b.toNat - 48)) (digitsValue l) :=
  List.foldl_append

theorem digitsValue_append_zeros (l : Bytes) (k : ℕ) :
    digitsValue (l ++ List.replicate k 48) = digitsValue l * 10 ^ k := by
  induction k generalizing l with
  | zero => rw [List.replicate_zero, List.append_nil, pow_zero, mul_one]
  | succ k ih =>
      have hone : digitsValue (l ++ [48]) = digitsValue l * 10 := by
        rw [digitsValue_append, mul_comm]
        rfl
      rw [List.replicate_succ, ← List.singleton_append, ← List.append_assoc, ih, hone, pow_succ']
      ring

theorem digitsValue_ofNat (zeros m : ℕ) :
    digitsValue (Numeral.Digits.ofNat zeros m).digits = m := by
  induction zeros with
  | zero => exact MqttCache.digitsValue_decimalNat m
  | succ zeros ih => exact ih

theorem numeralValue_pointed (negative : Bool) (d : Numeral.Digits) {k : ℕ} (exponent : Option ℤ)
    (hk : k < d.digits.length) :
    numeralValue (Numeral.pointed negative d k exponent) =
      (if negative then -1 else 1) * digitsValue d.digits *
        10 ^ (exponent.getD 0 - (d.digits.length - (k + 1))) := by
  obtain ⟨zeros, hzeros⟩ := Numeral.eq_stripZeros_append (d.digits.drop (k + 1))
  have hdigits : d.digits = d.digits.take (k + 1) ++
      Numeral.stripZeros (d.digits.drop (k + 1)) ++ List.replicate zeros 48 := by
    rw [List.append_assoc, ← hzeros, List.take_append_drop]
  have hlength : (d.digits.length : ℤ) - (k + 1) =
      (Numeral.stripZeros (d.digits.drop (k + 1))).length + zeros := by
    have hdrop := congrArg List.length hzeros
    rw [List.length_drop, List.length_append, List.length_replicate] at hdrop
    omega
  have hvalue : (digitsValue d.digits : ℚ) =
      digitsValue (d.digits.take (k + 1) ++ Numeral.stripZeros (d.digits.drop (k + 1))) *
        10 ^ zeros := by
    conv_lhs => rw [hdigits, digitsValue_append_zeros]
    push_cast
    rfl
  have hpower : (10 : ℚ) ^ (exponent.getD 0 -
      (Numeral.stripZeros (d.digits.drop (k + 1))).length) =
        10 ^ (exponent.getD 0 - (d.digits.length - (k + 1))) * 10 ^ zeros := by
    rw [hlength, ← Binary64.ten_zpow_add]
    congr 1
    ring
  change (if negative then -1 else 1) * (digitsValue (d.digits.take (k + 1) ++
    Numeral.stripZeros (d.digits.drop (k + 1))) : ℚ) * 10 ^ (exponent.getD 0 -
      ((Numeral.stripZeros (d.digits.drop (k + 1))).length : ℤ)) = _
  rw [hpower, hvalue]
  ring

theorem numeralValue_general {p : ℕ} (hp : 0 < p) (q : ℚ) :
    numeralValue (Numeral.general p q) = Numeral.rounded p q := by
  rcases eq_or_ne q 0 with hq | hq
  · have hzero : Numeral.general p q = Numeral.pointed false (Numeral.Digits.ofNat 0 0) 0 none :=
      if_pos hq
    have hlength : (Numeral.Digits.ofNat 0 0).digits.length = 1 := by decide
    rw [hzero, numeralValue_pointed _ _ _ (by omega), digitsValue_ofNat, Numeral.rounded, if_pos hq]
    norm_num
  · generalize hsignificant : Binary64.significant p |q| = d
    obtain ⟨m, x⟩ := d
    obtain ⟨hlow, hhigh⟩ : 10 ^ (p - 1) ≤ m ∧ m < 10 ^ p := by
      have hbounds := Binary64.significant_bounds hp (abs_pos.mpr hq)
      rwa [hsignificant] at hbounds
    have hdigits := Numeral.length_decimalNat hp hlow hhigh
    have hlength : ∀ zeros, (Numeral.Digits.ofNat zeros m).digits.length = zeros + p := by
      intro zeros
      rw [Numeral.length_ofNat, hdigits]
    have hsign : (if decide (q < 0) = true then (-1 : ℚ) else 1) = if q < 0 then -1 else 1 := by
      simp only [decide_eq_true_eq]
    -- all three styles stand for the same power of ten
    have hstyle : ∀ (zeros k : ℕ) (exponent : Option ℤ), k < zeros + p →
        exponent.getD 0 - ((zeros + p : ℕ) - (k + 1)) = x + 1 - p →
          numeralValue (Numeral.pointed (q < 0) (Numeral.Digits.ofNat zeros m) k exponent) =
            Numeral.rounded p q := by
      intro zeros k exponent hk hpower
      rw [numeralValue_pointed _ _ _ (by rw [hlength]; exact hk), digitsValue_ofNat, hlength,
        hpower, hsign, Numeral.rounded, if_neg hq, hsignificant, Binary64.significantValue,
        mul_assoc]
    rw [Numeral.general_of_ne_zero hq hsignificant]
    split_ifs with hexponent hnonneg
    · apply hstyle 0 0 (some x) (by omega)
      rw [Option.getD_some]
      push_cast
      ring
    · apply hstyle 0 x.toNat none (by omega)
      rw [Option.getD_none]
      push_cast
      omega
    · apply hstyle (-x).toNat 0 none (by omega)
      rw [Option.getD_none]
      push_cast
      omega

theorem decimalValue_formatG {p : ℕ} (hp : 0 < p) (q : ℚ) :
    decimalValue (formatG p q) = Numeral.rounded p q := by
  rw [formatG, decimalValue_text, numeralValue_general hp]

end Values

end CJson
