import Mathlib.Data.Int.Bitwise
import Mathlib.Data.Int.ModEq
import Mathlib.Data.List.Range
import Mathlib.Logic.Function.Basic
import Mathlib.Tactic.Ring

/-!
# Masked indices and windows of a circular array

Masking a two's complement integer with `2 ^ k - 1` is the Euclidean remainder
by `2 ^ k`, for negative integers too.  A window is the list of the entries of
a circular array that follow a start index.
-/

namespace Circular

/-- Masking keeps the low `k` bits, so a negative difference of two indices
becomes the distance going round. -/
theorem land_two_pow_sub_one (x : ℤ) (k : ℕ) : Int.land x (2 ^ k - 1) = x % 2 ^ k := by
  have hpos : 0 < 2 ^ k := Nat.two_pow_pos k
  have hmask : ((2 : ℤ) ^ k - 1) = Int.ofNat (2 ^ k - 1) := by
    simp [Nat.cast_sub (Nat.one_le_two_pow)]
  rw [hmask]
  cases x with
  | ofNat m =>
      change ((m &&& (2 ^ k - 1) : ℕ) : ℤ) = _
      rw [Nat.and_two_pow_sub_one_eq_mod]
      simp
  | negSucc m =>
      change ((Nat.ldiff (2 ^ k - 1) m : ℕ) : ℤ) = _
      have hlt : m % 2 ^ k < 2 ^ k := Nat.mod_lt m hpos
      have hldiff : Nat.ldiff (2 ^ k - 1) m = 2 ^ k - (m % 2 ^ k + 1) := by
        apply Nat.eq_of_testBit_eq
        intro i
        rw [Nat.testBit_ldiff, Nat.testBit_two_pow_sub_one,
          Nat.testBit_two_pow_sub_succ hlt, Nat.testBit_mod_two_pow]
        by_cases hi : i < k <;> simp [hi]
      rw [hldiff, Int.negSucc_emod m (by exact_mod_cast hpos)]
      push_cast [Nat.cast_sub (show m % 2 ^ k + 1 ≤ 2 ^ k from hlt)]
      ring

variable {α : Type*}

/-- The `n` entries of a circular array of the given size from `start` on. -/
def window (mem : ℤ → α) (size start : ℤ) (n : ℕ) : List α :=
  (List.range n).map fun i : ℕ ↦ mem ((start + i) % size)

@[simp] theorem window_zero (mem : ℤ → α) (size start : ℤ) :
    window mem size start 0 = [] := rfl

@[simp] theorem length_window (mem : ℤ → α) (size start : ℤ) (n : ℕ) :
    (window mem size start n).length = n := by
  simp [window]

theorem window_succ (mem : ℤ → α) (size start : ℤ) (n : ℕ) :
    window mem size start (n + 1) =
      window mem size start n ++ [mem ((start + n) % size)] := by
  simp [window, List.range_succ]

theorem window_succ_left (mem : ℤ → α) (size start : ℤ) (n : ℕ) :
    window mem size start (n + 1) =
      mem (start % size) :: window mem size ((start + 1) % size) n := by
  simp only [window, List.range_succ_eq_map, List.map_cons, List.map_map,
    Nat.cast_zero, add_zero]
  congr 1
  apply List.map_congr_left
  intro i _
  simp only [Function.comp_apply, Int.emod_add_emod]
  congr 2
  push_cast
  ring

theorem getElem?_window (mem : ℤ → α) (size start : ℤ) {n i : ℕ} (hi : i < n) :
    (window mem size start n)[i]? = some (mem ((start + i) % size)) := by
  simp [window, hi]

theorem emod_ne_of_lt {size start : ℤ} {i n : ℕ} (hi : i < n) (hn : (n : ℤ) < size) :
    (start + i) % size ≠ (start + n) % size := by
  intro heq
  have hdvd : size ∣ (n : ℤ) - i := by
    have hmod : (start + i : ℤ) ≡ start + n [ZMOD size] := heq
    simpa using hmod.dvd
  have hle := Int.le_of_dvd (by omega) hdvd
  omega

/-- Writing the entry just past a window that does not fill the array leaves
the window as it is. -/
theorem window_update_end (mem : ℤ → α) {size start : ℤ} {n : ℕ} (x : α)
    (hn : (n : ℤ) < size) :
    window (Function.update mem ((start + n) % size) x) size start n =
      window mem size start n := by
  apply List.map_congr_left
  intro i hi
  exact Function.update_of_ne (emod_ne_of_lt (List.mem_range.mp hi) hn) _ _

end Circular
