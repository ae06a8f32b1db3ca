import Mathlib.Algebra.Ring.Parity
import Mathlib.Data.List.Basic
import Mathlib.Logic.Function.Iterate
import Mathlib.Order.Basic
import Mathlib.Tactic.Ring

/-!
# Cyclic redundancy checks

The register is shifted towards its low end, and the polynomial is subtracted
when a one leaves it.  Shifting is linear in exclusive or, so two words of one
length have the same remainder if and only if their difference has remainder
zero from the register zero.
-/

namespace Crc

variable {w : ℕ} {poly r s : BitVec w} {xs ys : List Bool}

section Register

def shift (poly r : BitVec w) : BitVec w :=
  if r.getLsbD 0 then r >>> 1 ^^^ poly else r >>> 1

/-- A bit at the low end of the register. -/
def unit (b : Bool) : BitVec w := (BitVec.ofBool b).setWidth w

/-- The register after the bits. -/
def remainder (poly : BitVec w) : BitVec w → List Bool → BitVec w
  | r, [] => r
  | r, b :: xs => remainder poly (shift poly (r ^^^ unit b)) xs

theorem xor_cancel (a b p : BitVec w) : a ^^^ p ^^^ (b ^^^ p) = a ^^^ b := by
  calc
    a ^^^ p ^^^ (b ^^^ p) = a ^^^ b ^^^ (p ^^^ p) := by ac_rfl
    _ = a ^^^ b := by rw [BitVec.xor_self, BitVec.xor_zero]

theorem shift_xor (r s : BitVec w) : shift poly (r ^^^ s) = shift poly r ^^^ shift poly s := by
  unfold shift
  rw [BitVec.getLsbD_xor, BitVec.ushiftRight_xor_distrib]
  cases r.getLsbD 0 <;> cases s.getLsbD 0
  · simp
  · simp [BitVec.xor_assoc]
  · simp only [Bool.xor_false, if_true]
    rw [if_neg (by simp)]
    ac_rfl
  · simp only [Bool.xor_self, if_true]
    rw [if_neg (by simp)]
    exact (xor_cancel _ _ _).symm

theorem shift_zero : shift poly 0 = 0 := by
  simp [shift]

theorem iterate_shift_zero (n : ℕ) : (shift poly)^[n] 0 = 0 :=
  Function.iterate_fixed shift_zero n

theorem iterate_shift_xor (n : ℕ) (r s : BitVec w) :
    (shift poly)^[n] (r ^^^ s) = (shift poly)^[n] r ^^^ (shift poly)^[n] s := by
  induction n generalizing r s with
  | zero => rfl
  | succ n ih =>
      simp only [Function.iterate_succ_apply]
      rw [shift_xor, ih]

/-- A polynomial whose constant term is one loses nothing. -/
theorem eq_zero_of_shift (hpoly : poly.msb = true) (h : shift poly r = 0) : r = 0 := by
  have hwidth : 0 < w := by
    by_contra hzero
    obtain rfl : w = 0 := by omega
    simp [BitVec.msb, BitVec.getMsbD] at hpoly
  unfold shift at h
  split at h
  case isTrue hlow =>
    -- the highest bit of the register comes from the polynomial alone
    have htop := congrArg BitVec.msb h
    rw [BitVec.msb_xor, hpoly, BitVec.msb_ushiftRight] at htop
    simp at htop
  case isFalse hlow =>
    apply BitVec.eq_of_getLsbD_eq
    intro i _
    cases i with
    | zero => simpa using hlow
    | succ i =>
        have hbit := congrArg (·.getLsbD i) h
        simpa [Nat.add_comm] using hbit

theorem shift_injective (hpoly : poly.msb = true) : Function.Injective (shift poly) := by
  intro r s h
  apply BitVec.xor_eq_zero_iff.mp
  apply eq_zero_of_shift hpoly
  rw [shift_xor, h, BitVec.xor_self]
  rfl

theorem eq_zero_of_iterate_shift (hpoly : poly.msb = true) {n : ℕ}
    (h : (shift poly)^[n] r = 0) : r = 0 :=
  (shift_injective hpoly).iterate n (h.trans (iterate_shift_zero n).symm)

end Register

section Linear

/-- The bits in which the words differ. -/
def difference (xs ys : List Bool) : List Bool := List.zipWith xor xs ys

theorem unit_xor (a b : Bool) : (unit (a ^^ b) : BitVec w) = unit a ^^^ unit b := by
  cases a <;> cases b <;> simp [unit]

theorem remainder_append (r : BitVec w) (xs ys : List Bool) :
    remainder poly r (xs ++ ys) = remainder poly (remainder poly r xs) ys := by
  induction xs generalizing r with
  | nil => rfl
  | cons b xs ih => exact ih _

theorem remainder_xor (hlength : xs.length = ys.length) (r s : BitVec w) :
    remainder poly (r ^^^ s) (difference xs ys) = remainder poly r xs ^^^ remainder poly s ys := by
  induction xs generalizing ys r s with
  | nil =>
      obtain rfl : ys = [] := List.length_eq_zero_iff.mp hlength.symm
      rfl
  | cons b xs ih =>
      cases ys with
      | nil => cases hlength
      | cons c ys =>
          have hnext : r ^^^ s ^^^ unit (b ^^ c) = r ^^^ unit b ^^^ (s ^^^ unit c) := by
            rw [unit_xor]
            ac_rfl
          rw [difference, List.zipWith_cons_cons]
          simp only [remainder]
          rw [hnext, shift_xor]
          exact ih (Nat.succ.inj hlength) _ _

theorem remainder_eq_iff (hlength : xs.length = ys.length) :
    remainder poly r xs = remainder poly r ys ↔ remainder poly 0 (difference xs ys) = 0 := by
  have hxor := @remainder_xor _ poly _ _ hlength r r
  rw [BitVec.xor_self] at hxor
  constructor
  · intro h
    rw [h, BitVec.xor_self] at hxor
    exact hxor
  · intro h
    exact BitVec.xor_eq_zero_iff.mp (hxor.symm.trans h)

theorem remainder_replicate_false (r : BitVec w) (n : ℕ) :
    remainder poly r (List.replicate n false) = (shift poly)^[n] r := by
  induction n generalizing r with
  | zero => rfl
  | succ n ih =>
      rw [List.replicate_succ, remainder, ih, Function.iterate_succ_apply]
      simp [unit]

end Linear

section Words

/-- The first `w` bits of a list, the first at the low end. -/
def pack : List Bool → BitVec w
  | [] => 0
  | b :: xs => unit b ^^^ (pack xs <<< 1)

/-- The bits of a register in the order in which they are shifted out. -/
def unpack (r : BitVec w) : List Bool := (List.range w).map r.getLsbD

@[simp] theorem getElem_pack {i : ℕ} (hi : i < w) (xs : List Bool) :
    (pack xs : BitVec w)[i] = xs.getD i false := by
  induction xs generalizing i with
  | nil => simp [pack]
  | cons b xs ih =>
      cases i with
      | zero => simp [pack, unit]
      | succ i => simpa [pack, unit] using ih (Nat.lt_of_succ_lt hi)

theorem pack_unpack (r : BitVec w) : pack (unpack r) = r := by
  apply BitVec.eq_of_getElem_eq
  intro i hi
  simp [unpack, hi]

theorem shift_pack (hlength : xs.length < w) : shift poly (pack xs <<< 1) = pack xs := by
  rw [shift, if_neg (by simp)]
  apply BitVec.eq_of_getElem_eq
  intro i hi
  by_cases htop : i + 1 < w
  · simp [Nat.add_comm 1 i, htop]
  · -- the bit lost on the way up was none
    have hend : xs.length ≤ i := by omega
    simp [Nat.add_comm 1 i, htop, hend]

/-- No more bits than the register has may be put into it at once. -/
theorem remainder_eq (hlength : xs.length ≤ w) (r : BitVec w) :
    remainder poly r xs = (shift poly)^[xs.length] (r ^^^ pack xs) := by
  induction xs generalizing r with
  | nil => simp [remainder, pack]
  | cons b xs ih =>
      have hsplit : shift poly (r ^^^ pack (b :: xs)) =
          shift poly (r ^^^ unit b) ^^^ pack xs := by
        rw [pack, ← BitVec.xor_assoc, shift_xor, shift_pack hlength]
      rw [remainder, ih (Nat.le_of_succ_le hlength), List.length_cons,
        Function.iterate_succ_apply, hsplit]

/-- The one word after which nothing remains is the register itself. -/
theorem remainder_eq_zero_iff (hpoly : poly.msb = true) (hlength : xs.length = w) :
    remainder poly r xs = 0 ↔ xs = unpack r := by
  rw [remainder_eq hlength.le]
  constructor
  · intro h
    have hword : r = pack xs :=
      BitVec.xor_eq_zero_iff.mp (eq_zero_of_iterate_shift hpoly h)
    apply List.ext_getElem
    · simp [unpack, hlength]
    · intro i hi _
      simp [unpack, hword, hlength ▸ hi, hi]
  · rintro rfl
    rw [pack_unpack, BitVec.xor_self]
    exact iterate_shift_zero _

end Words

section Tables

theorem remainder_unpack {k : ℕ} (hk : k ≤ w) (r : BitVec w) (s : BitVec k) :
    remainder poly r (unpack s) = (shift poly)^[k] (r ^^^ s.setWidth w) := by
  have hlength : (unpack s).length = k := by simp [unpack]
  have hpack : (pack (unpack s) : BitVec w) = s.setWidth w := by
    apply BitVec.eq_of_getElem_eq
    intro i hi
    by_cases hlow : i < k
    · simp [unpack, hlow]
    · simp [unpack, hlow, not_lt.mp hlow]
  rw [remainder_eq (hlength.trans_le hk), hlength, hpack]

theorem iterate_shift_of_clear {k : ℕ} (hclear : ∀ i < k, r.getLsbD i = false) :
    (shift poly)^[k] r = r >>> k := by
  induction k with
  | zero => simp
  | succ k ih =>
      have hlow : (r >>> k).getLsbD 0 = false := by
        rw [BitVec.getLsbD_ushiftRight]
        exact hclear k k.lt_succ_self
      rw [Function.iterate_succ_apply', ih fun i hi ↦ hclear i (hi.trans k.lt_succ_self), shift,
        if_neg (by simp [hlow]), ← BitVec.shiftRight_add]

/-- The last `k` bits of the register decide what is subtracted in the next
`k` shifts. -/
theorem iterate_shift_eq (k : ℕ) (r : BitVec w) :
    (shift poly)^[k] r = (shift poly)^[k] ((r.setWidth k).setWidth w) ^^^ r >>> k := by
  let low : BitVec w := (r.setWidth k).setWidth w
  have hclear : ∀ i < k, (r ^^^ low).getLsbD i = false := by
    intro i hi
    by_cases hw : i < w
    · simp [low, hi, hw]
    · rw [BitVec.getLsbD_of_ge _ _ (not_lt.mp hw)]
  have hhigh : (r ^^^ low) >>> k = r >>> k := by
    apply BitVec.eq_of_getLsbD_eq
    intro i _
    simp [low]
  calc
    (shift poly)^[k] r = (shift poly)^[k] (low ^^^ (r ^^^ low)) := by
      congr 1
      rw [BitVec.xor_comm r, ← BitVec.xor_assoc, BitVec.xor_self, BitVec.zero_xor]
    _ = (shift poly)^[k] low ^^^ r >>> k := by
      rw [iterate_shift_xor, iterate_shift_of_clear hclear, hhigh]

end Tables

section Errors

variable {es : List Bool} {n : ℕ}

/-- All ones lie within `w` bits. -/
def Burst (w : ℕ) (es : List Bool) : Prop :=
  ∃ a xs b, es = List.replicate a false ++ xs ++ List.replicate b false ∧ xs.length ≤ w

theorem remainder_ne_zero_of_burst (hpoly : poly.msb = true) (h : Burst w es)
    (hone : true ∈ es) : remainder poly 0 es ≠ 0 := by
  obtain ⟨a, xs, b, rfl, hlength⟩ := h
  intro hzero
  rw [remainder_append, remainder_append, remainder_replicate_false, remainder_replicate_false,
    iterate_shift_zero, remainder_eq hlength] at hzero
  have hword := eq_zero_of_iterate_shift hpoly (eq_zero_of_iterate_shift hpoly hzero)
  have hmem : true ∈ xs := by simpa using hone
  obtain ⟨i, hi, hbit⟩ := List.mem_iff_getElem.mp hmem
  have hclear := congrArg (·.getLsbD i) hword
  simp [hi.trans_le hlength, hi, hbit] at hclear

def parity (xs : List Bool) : Bool := xs.foldr xor false

theorem parity_cons (b : Bool) (xs : List Bool) : parity (b :: xs) = (b ^^ parity xs) := rfl

theorem parity_append (xs ys : List Bool) : parity (xs ++ ys) = (parity xs ^^ parity ys) := by
  induction xs with
  | nil => simp [parity]
  | cons b xs ih => rw [List.cons_append, parity_cons, ih, parity_cons, Bool.xor_assoc]

theorem parity_difference (hlength : xs.length = ys.length) :
    parity (difference xs ys) = (parity xs ^^ parity ys) := by
  induction xs generalizing ys with
  | nil =>
      obtain rfl : ys = [] := List.length_eq_zero_iff.mp hlength.symm
      rfl
  | cons b xs ih =>
      cases ys with
      | nil => cases hlength
      | cons c ys =>
          change ((b ^^ c) ^^ parity (difference xs ys)) = ((b ^^ parity xs) ^^ (c ^^ parity ys))
          rw [ih (Nat.succ.inj hlength), Bool.xor_assoc, Bool.xor_assoc,
            Bool.xor_left_comm (parity xs)]

theorem parity_eq_decide_odd (xs : List Bool) : parity xs = decide (Odd (xs.count true)) := by
  induction xs with
  | nil => rfl
  | cons b xs ih =>
      rw [parity_cons, ih]
      cases b
      · simp
      · simp [Nat.odd_add_one, -Nat.not_odd_iff_even]

theorem unpack_xor (r s : BitVec w) : unpack (r ^^^ s) = difference (unpack r) (unpack s) := by
  simp [unpack, difference, List.zipWith_map, List.zipWith_self]

theorem parity_unpack_ushiftRight (hw : 0 < w) (r : BitVec w) :
    parity (unpack (r >>> 1)) = (r.getLsbD 0 ^^ parity (unpack r)) := by
  obtain ⟨k, rfl⟩ := Nat.exists_eq_add_of_lt hw
  have hdown : unpack (r >>> 1) = (List.range k).map (fun i ↦ r.getLsbD (i + 1)) ++ [false] := by
    simp [unpack, List.range_succ, Nat.add_comm 1]
  have hup : unpack r = r.getLsbD 0 :: (List.range k).map fun i ↦ r.getLsbD (i + 1) := by
    simp only [unpack, Nat.zero_add]
    rw [List.range_succ_eq_map, List.map_cons, List.map_map]
    rfl
  rw [hdown, hup, parity_append, parity_cons (r.getLsbD 0), ← Bool.xor_assoc, Bool.xor_self,
    Bool.false_xor]
  exact Bool.xor_false _

/-- A polynomial with an even number of terms, the highest one included, is
divisible by `x + 1`. -/
theorem parity_shift (hw : 0 < w) (hpoly : parity (unpack poly) = true) (r : BitVec w) :
    parity (unpack (shift poly r)) = parity (unpack r) := by
  unfold shift
  split
  case isTrue hlow =>
    rw [unpack_xor, parity_difference (by simp [unpack]), parity_unpack_ushiftRight hw, hpoly,
      hlow]
    simp
  case isFalse hlow =>
    rw [parity_unpack_ushiftRight hw, Bool.not_eq_true _ |>.mp hlow, Bool.false_xor]

theorem parity_unpack_zero : parity (unpack (0 : BitVec w)) = false := by
  have hnone : (unpack (0 : BitVec w)).count true = 0 := by
    apply List.count_eq_zero.mpr
    simp [unpack]
  rw [parity_eq_decide_odd, hnone]
  simp

theorem parity_unpack_unit (hw : 0 < w) (b : Bool) : parity (unpack (unit b : BitVec w)) = b := by
  have hdown : (unit b : BitVec w) >>> 1 = 0 := by
    apply BitVec.eq_of_getLsbD_eq
    intro i _
    simp [unit]
  have hparity := parity_unpack_ushiftRight hw (unit b)
  rw [hdown, parity_unpack_zero] at hparity
  have hlow : (unit b : BitVec w).getLsbD 0 = b := by simp [unit, hw]
  rw [hlow] at hparity
  exact (bne_eq_false_iff_eq.mp hparity.symm).symm

theorem parity_remainder (hw : 0 < w) (hpoly : parity (unpack poly) = true) (r : BitVec w)
    (xs : List Bool) :
    parity (unpack (remainder poly r xs)) = (parity (unpack r) ^^ parity xs) := by
  induction xs generalizing r with
  | nil => simp [remainder, parity]
  | cons b xs ih =>
      rw [remainder, ih, parity_shift hw hpoly, unpack_xor, parity_difference (by simp [unpack]),
        parity_unpack_unit hw, parity_cons, Bool.xor_assoc]

theorem remainder_ne_zero_of_odd (hw : 0 < w) (hpoly : parity (unpack poly) = true)
    (h : Odd (es.count true)) : remainder poly 0 es ≠ 0 := by
  intro hzero
  have hparity := parity_remainder hw hpoly 0 es
  rw [hzero, parity_eq_decide_odd es, decide_eq_true h] at hparity
  simp at hparity

theorem split_of_count (h : es.count true = n + 1) :
    ∃ a xs, es = List.replicate a false ++ true :: xs ∧ xs.count true = n := by
  induction es with
  | nil => cases h
  | cons b es ih =>
      cases b with
      | true => exact ⟨0, es, rfl, by simpa using h⟩
      | false =>
          obtain ⟨a, xs, rfl, hcount⟩ := ih (by simpa using h)
          exact ⟨a + 1, xs, rfl, hcount⟩

theorem eq_replicate_of_count (h : es.count true = 0) :
    es = List.replicate es.length false := by
  apply List.eq_replicate_of_mem
  intro b hb
  cases b with
  | false => rfl
  | true => exact absurd hb (List.count_eq_zero.mp h)

/-- Two ones are as far apart as the register takes to become one again. -/
theorem remainder_ne_zero_of_two (hpoly : poly.msb = true)
    (hperiod : ∀ k, 0 < k → k < n → (shift poly)^[k] (unit true) ≠ unit true)
    (hlength : es.length ≤ n) (h : es.count true = 2) : remainder poly 0 es ≠ 0 := by
  obtain ⟨a, xs, rfl, hxs⟩ := split_of_count h
  obtain ⟨k, ys, rfl, hys⟩ := split_of_count hxs
  have hapart : k + 1 < n := by
    simp only [List.length_append, List.length_cons, List.length_replicate] at hlength
    omega
  intro hzero
  rw [eq_replicate_of_count hys, remainder_append, remainder_replicate_false,
    iterate_shift_zero, remainder, remainder_append, remainder_replicate_false, remainder,
    remainder_replicate_false, ← Function.iterate_succ_apply] at hzero
  have hagain := eq_zero_of_shift hpoly (eq_zero_of_iterate_shift hpoly hzero)
  exact hperiod (k + 1) k.succ_pos hapart (by simpa using hagain)

/-- Whether the register comes to `target` in fewer than `n` shifts. -/
def returns (poly target : BitVec w) : ℕ → BitVec w → Bool
  | 0, _ => false
  | n + 1, r => r == target || returns poly target n (shift poly r)

theorem iterate_shift_ne_of_returns {target : BitVec w} (h : returns poly target n r = false)
    {k : ℕ} (hk : k < n) : (shift poly)^[k] r ≠ target := by
  induction n generalizing r k with
  | zero => cases hk
  | succ n ih =>
      obtain ⟨hnow, hlater⟩ := Bool.or_eq_false_iff.mp h
      cases k with
      | zero => exact beq_eq_false_iff_ne.mp hnow
      | succ k => exact ih hlater (Nat.lt_of_succ_lt_succ hk)

/-- A polynomial of degree `w` that finds the errors of `Caught` in words of at
most `n` bits. -/
structure Detects (poly : BitVec w) (n : ℕ) : Prop where
  msb : poly.msb = true
  parity : parity (unpack poly) = true
  period : ∀ k, 0 < k → k < n → (shift poly)^[k] (unit true) ≠ unit true

inductive Caught (w : ℕ) (es : List Bool) : Prop
  | odd (h : Odd (es.count true))
  | two (h : es.count true = 2)
  | burst (h : Burst w es) (hone : true ∈ es)

theorem Detects.remainder_ne (hpoly : Detects poly n) (hlength : xs.length = ys.length)
    (hshort : xs.length ≤ n) (hcaught : Caught w (difference xs ys)) :
    remainder poly r xs ≠ remainder poly r ys := by
  rw [Ne, remainder_eq_iff hlength]
  cases hcaught with
  | odd h =>
      have hwidth : 0 < w := by
        by_contra hzero
        obtain rfl : w = 0 := by omega
        cases hpoly.msb
      exact remainder_ne_zero_of_odd hwidth hpoly.parity h
  | two h =>
      apply remainder_ne_zero_of_two hpoly.msb hpoly.period _ h
      rw [difference, List.length_zipWith]
      omega
  | burst h hone => exact remainder_ne_zero_of_burst hpoly.msb h hone

end Errors

end Crc
