import Mathlib.Data.List.DropRight
import PcsSim.Lib.CString
import PcsSim.Lib.Significant

/-!
# The format %g

The texts that `%1.15g` and `%1.17g` write: significant digits with a point
among them or, where the first digit stands too far from the point, with an
exponent, and no zeros at the end of the fraction.
-/

def isDecimalDigit (b : UInt8) : Prop := 48 ≤ b ∧ b ≤ 57

structure Numeral where
  negative : Bool
  whole : Bytes
  fraction : Bytes
  exponent : Option ℤ
  whole_ne_nil : whole ≠ []
  whole_digits : ∀ b ∈ whole, isDecimalDigit b
  fraction_digits : ∀ b ∈ fraction, isDecimalDigit b

namespace Numeral

def sign (n : Numeral) : Bytes := if n.negative then [45] else []

def point (n : Numeral) : Bytes := if n.fraction = [] then [] else 46 :: n.fraction

/-- An exponent has at least two digits. -/
def exponentDigits (x : ℤ) : Bytes :=
  if x.natAbs < 10 then 48 :: decimalNat x.natAbs else decimalNat x.natAbs

def exponentText : Option ℤ → Bytes
  | none => []
  | some x => 101 :: (if x < 0 then 45 else 43) :: exponentDigits x

def text (n : Numeral) : Bytes := n.sign ++ n.whole ++ n.point ++ exponentText n.exponent

def stripZeros (digits : Bytes) : Bytes := digits.rdropWhile (· = 48)

theorem eq_stripZeros_append (digits : Bytes) :
    ∃ k, digits = stripZeros digits ++ List.replicate k 48 := by
  induction digits using List.reverseRecOn with
  | nil => exact ⟨0, rfl⟩
  | append_singleton digits b ih =>
      rw [stripZeros]
      by_cases hb : b = 48
      · obtain ⟨k, hk⟩ := ih
        refine ⟨k + 1, ?_⟩
        rw [List.rdropWhile_concat_pos _ _ _ (by simpa using hb), List.replicate_succ',
          ← List.append_assoc, ← stripZeros, ← hk, hb]
      · refine ⟨0, ?_⟩
        rw [List.rdropWhile_concat_neg _ _ _ (by simpa using hb), List.replicate_zero,
          List.append_nil]

theorem mem_of_mem_stripZeros {digits : Bytes} {b : UInt8} (h : b ∈ stripZeros digits) :
    b ∈ digits :=
  (List.rdropWhile_prefix _ _).subset h

/-- A list of digits that is not empty. -/
structure Digits where
  digits : Bytes
  ne_nil : digits ≠ []
  all : ∀ b ∈ digits, isDecimalDigit b

/-- The number with `zeros` zeros before it. -/
def Digits.ofNat (zeros m : ℕ) : Digits where
  digits := List.replicate zeros 48 ++ decimalNat m
  ne_nil := List.append_ne_nil_of_right_ne_nil _ (decimalNat_ne_nil m)
  all := by
    intro b hb
    rcases List.mem_append.mp hb with hb | hb
    · rw [List.eq_of_mem_replicate hb]
      exact ⟨UInt8.le_refl 48, by decide⟩
    · exact digit_of_mem_decimalNat hb

/-- The point stands after the first `n + 1` digits. -/
def pointed (negative : Bool) (d : Digits) (n : ℕ) (exponent : Option ℤ) : Numeral where
  negative := negative
  whole := d.digits.take (n + 1)
  fraction := stripZeros (d.digits.drop (n + 1))
  exponent := exponent
  whole_ne_nil := by
    intro hnil
    rcases List.take_eq_nil_iff.mp hnil with hzero | hdigits
    · exact absurd hzero (Nat.succ_ne_zero n)
    · exact d.ne_nil hdigits
  whole_digits b hb := d.all b (List.mem_of_mem_take hb)
  fraction_digits b hb := d.all b (List.mem_of_mem_drop (mem_of_mem_stripZeros hb))

/-- The style is chosen by the exponent of the rounded number. -/
def general (p : ℕ) (q : ℚ) : Numeral :=
  if q = 0 then pointed false (Digits.ofNat 0 0) 0 none
  else
    let (m, x) := Binary64.significant p |q|
    if x < -4 ∨ p ≤ x then pointed (q < 0) (Digits.ofNat 0 m) 0 (some x)
    else if 0 ≤ x then pointed (q < 0) (Digits.ofNat 0 m) x.toNat none
    else pointed (q < 0) (Digits.ofNat (-x).toNat m) 0 none

/-- The number that is written. -/
def rounded (p : ℕ) (q : ℚ) : ℚ :=
  if q = 0 then 0
  else
    (if q < 0 then -1 else 1) * Binary64.significantValue p (Binary64.significant p |q|)

section Lengths

theorem length_stripZeros_le (digits : Bytes) : (stripZeros digits).length ≤ digits.length :=
  (List.rdropWhile_prefix _ _).length_le

theorem length_exponentText_le {x : ℤ} (hx : x.natAbs < 1000) :
    (exponentText (some x)).length ≤ 5 := by
  have hdigits : (decimalNat x.natAbs).length ≤ 3 := length_decimalNat_le (by decide) hx
  have hle : (exponentDigits x).length ≤ 3 := by
    rw [exponentDigits]
    split_ifs with hshort
    · have hone : (decimalNat x.natAbs).length ≤ 1 := length_decimalNat_le (by decide) hshort
      rw [List.length_cons]
      omega
    · exact hdigits
  rw [exponentText, List.length_cons, List.length_cons]
  omega

theorem length_pointed_le (negative : Bool) (d : Digits) (n : ℕ) (exponent : Option ℤ)
    (hn : n < d.digits.length) :
    (pointed negative d n exponent).text.length ≤
      d.digits.length + 2 + (exponentText exponent).length := by
  have hsign : (pointed negative d n exponent).sign.length ≤ 1 := by
    rw [sign]
    split_ifs <;> decide
  have hpoint : (pointed negative d n exponent).point.length ≤ d.digits.length - n := by
    have hstrip := length_stripZeros_le (d.digits.drop (n + 1))
    rw [List.length_drop] at hstrip
    rw [point]
    split_ifs
    · exact Nat.zero_le _
    · have hfraction : (pointed negative d n exponent).fraction =
          stripZeros (d.digits.drop (n + 1)) := rfl
      rw [hfraction, List.length_cons]
      omega
  have hwhole : (pointed negative d n exponent).whole.length = n + 1 := by
    have htake : (pointed negative d n exponent).whole = d.digits.take (n + 1) := rfl
    rw [htake, List.length_take]
    omega
  have hexponent : (pointed negative d n exponent).exponent = exponent := rfl
  rw [text, List.length_append, List.length_append, List.length_append, hwhole, hexponent]
  omega

theorem length_decimalNat {p m : ℕ} (hp : 0 < p) (hlow : 10 ^ (p - 1) ≤ m) (hhigh : m < 10 ^ p) :
    (decimalNat m).length = p := by
  have hle : (decimalNat m).length ≤ p := length_decimalNat_le hp hhigh
  refine le_antisymm hle (not_lt.mp fun hlt ↦ ?_)
  have hpos : 0 < (decimalNat m).length := List.length_pos_iff.mpr (decimalNat_ne_nil m)
  have hmore : 0 < p - 1 := by omega
  have hfew : m < 10 ^ (p - 1) := by
    rw [decimalNat, List.length_map] at hlt
    exact (Nat.length_toDigits_le_iff (by decide) hmore).mp (by omega)
  omega

theorem length_ofNat (zeros m : ℕ) :
    (Digits.ofNat zeros m).digits.length = zeros + (decimalNat m).length := by
  rw [Digits.ofNat, List.length_append, List.length_replicate]

theorem general_of_ne_zero {p : ℕ} {q : ℚ} (hq : q ≠ 0) {m : ℕ} {x : ℤ}
    (h : Binary64.significant p |q| = (m, x)) :
    general p q =
      if x < -4 ∨ p ≤ x then pointed (q < 0) (Digits.ofNat 0 m) 0 (some x)
      else if 0 ≤ x then pointed (q < 0) (Digits.ofNat 0 m) x.toNat none
      else pointed (q < 0) (Digits.ofNat (-x).toNat m) 0 none := by
  rw [general, if_neg hq, h]

theorem length_general_le {p : ℕ} {q : ℚ} (hp : 0 < p)
    (hx : q ≠ 0 → (Binary64.significant p |q|).2.natAbs < 1000) :
    (general p q).text.length ≤ p + 7 := by
  rcases eq_or_ne q 0 with hq | hq
  · have hzero : general p q = pointed false (Digits.ofNat 0 0) 0 none := if_pos hq
    have hlength : (Digits.ofNat 0 0).digits.length = 1 := by decide
    have hle := length_pointed_le false (Digits.ofNat 0 0) 0 none (by omega)
    rw [hlength, exponentText, List.length_nil] at hle
    rw [hzero]
    omega
  · replace hx := hx hq
    generalize hsignificant : Binary64.significant p |q| = d at hx
    obtain ⟨m, x⟩ := d
    obtain ⟨hlow, hhigh⟩ : 10 ^ (p - 1) ≤ m ∧ m < 10 ^ p := by
      have hbounds := Binary64.significant_bounds hp (abs_pos.mpr hq)
      rwa [hsignificant] at hbounds
    have hdigits := length_decimalNat hp hlow hhigh
    have hplain := length_ofNat 0 m
    rw [general_of_ne_zero hq hsignificant]
    split_ifs with hexponent hnonneg
    · have hle := length_pointed_le (q < 0) (Digits.ofNat 0 m) 0 (some x) (by omega)
      have htext : (exponentText (some x)).length ≤ 5 := length_exponentText_le hx
      omega
    · have hle := length_pointed_le (q < 0) (Digits.ofNat 0 m) x.toNat none (by omega)
      have htext : (exponentText none).length = 0 := rfl
      omega
    · have hzeros := length_ofNat (-x).toNat m
      have hle := length_pointed_le (q < 0) (Digits.ofNat (-x).toNat m) 0 none (by omega)
      have htext : (exponentText none).length = 0 := rfl
      omega

end Lengths

end Numeral

/-- What `%1.pg` writes. -/
def formatG (p : ℕ) (q : ℚ) : Bytes := (Numeral.general p q).text
