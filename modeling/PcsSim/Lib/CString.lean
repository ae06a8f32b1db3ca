import Mathlib.Algebra.Ring.Int.Defs
import Mathlib.Algebra.Ring.Nat
import Mathlib.Tactic.Common

/-!
# Texts of C

A C string is the list of its bytes before the terminating NUL.
-/

abbrev Bytes := List UInt8

def ascii (s : String) : Bytes := s.toList.map Char.toUInt8

def decimalNat (n : ℕ) : Bytes := (Nat.toDigits 10 n).map Char.toUInt8

/-- What `%d` and `%lld` print. -/
def decimal : ℤ → Bytes
  | .ofNat n => decimalNat n
  | .negSucc n => ascii "-" ++ decimalNat (n + 1)

theorem length_decimalNat_le {n k : ℕ} (hk : 0 < k) (hn : n < 10 ^ k) :
    (decimalNat n).length ≤ k := by
  rw [decimalNat, List.length_map]
  exact (Nat.length_toDigits_le_iff (by decide) hk).mpr hn

theorem decimalNat_ne_nil (n : ℕ) : decimalNat n ≠ [] := by
  simp [decimalNat]

theorem digit_of_mem_decimalNat {n : ℕ} {b : UInt8} (hb : b ∈ decimalNat n) :
    48 ≤ b ∧ b ≤ 57 := by
  obtain ⟨c, hc, rfl⟩ := List.mem_map.mp hb
  have hdigit : c.isDigit := Nat.isDigit_of_mem_toDigits (by decide) (by decide) hc
  simp only [Char.isDigit, Bool.and_eq_true, decide_eq_true_eq, UInt32.le_iff_toNat_le] at hdigit
  have hlow : 48 ≤ c.toNat := hdigit.1
  have hhigh : c.toNat ≤ 57 := hdigit.2
  have hbyte : (Char.toUInt8 c).toNat = c.toNat := by
    rw [Char.toUInt8, UInt32.toNat_toUInt8]
    exact Nat.mod_eq_of_lt (by change c.toNat < 2 ^ 8; omega)
  constructor
  · rw [UInt8.le_iff_toNat_le, hbyte]
    exact hlow
  · rw [UInt8.le_iff_toNat_le, hbyte]
    exact hhigh

theorem length_decimal_le {z : ℤ} (hlow : -2 ^ 63 ≤ z) (hhigh : z < 2 ^ 63) :
    (decimal z).length ≤ 20 := by
  cases z with
  | ofNat n =>
      have hn : n < 10 ^ 20 := by
        simp only [Int.ofNat_eq_natCast] at hhigh
        omega
      exact length_decimalNat_le (by decide) hn
  | negSucc n =>
      have hn : n + 1 < 10 ^ 19 := by omega
      have hlength := length_decimalNat_le (by decide) hn
      simp only [decimal, List.length_append]
      have hsign : (ascii "-").length = 1 := by decide
      omega

example : decimal (-120) = ascii "-120" := by decide
