import Mathlib.Data.List.Range
import Mathlib.Tactic.Common

/-!
# A memory of 16-bit words, read and written as bytes

Words go over the line high byte first.  `read` and `write` are stated for a
whole range; the loop lemmas say that they may be computed one word at a time.
-/

namespace WordMemory

/-- The two bytes of a word, high byte first. -/
def bytesOf (word : UInt16) : List UInt8 := [(word >>> 8).toUInt8, (word &&& 0xFF).toUInt8]

def wordAt (data : ℕ → UInt8) (k : ℕ) : UInt16 :=
  (data (2 * k)).toUInt16 <<< 8 ||| (data (2 * k + 1)).toUInt16

def read (mem : ℕ → UInt16) (address count : ℕ) : List UInt8 :=
  (List.range count).flatMap fun k ↦ bytesOf (mem (address + k))

def write (mem : ℕ → UInt16) (address count : ℕ) (data : ℕ → UInt8) : ℕ → UInt16 := fun i ↦
  if address ≤ i ∧ i < address + count then wordAt data (i - address) else mem i

theorem toNat_high (word : UInt16) : (word >>> 8).toUInt8.toNat = word.toNat / 256 := by
  have hlt := word.toNat_lt
  simp only [UInt16.toNat_toUInt8, UInt16.toNat_shiftRight, Nat.shiftRight_eq_div_pow]
  change word.toNat / 256 % 256 = word.toNat / 256
  omega

theorem toNat_low (word : UInt16) : (word &&& 0xFF).toUInt8.toNat = word.toNat % 256 := by
  have hmask : word.toNat &&& 255 = word.toNat % 256 := Nat.and_two_pow_sub_one_eq_mod _ 8
  simp only [UInt16.toNat_toUInt8, UInt16.toNat_and]
  change (word.toNat &&& 255) % 256 = word.toNat % 256
  rw [hmask, Nat.mod_mod]

theorem toNat_word (high low : UInt8) :
    (high.toUInt16 <<< 8 ||| low.toUInt16).toNat = 256 * high.toNat + low.toNat := by
  have hhigh := high.toNat_lt
  have hlow := low.toNat_lt
  have hshift : high.toNat <<< 8 % 2 ^ 16 = high.toNat <<< 8 := by
    rw [Nat.shiftLeft_eq]
    omega
  simp only [UInt16.toNat_or, UInt16.toNat_shiftLeft, UInt8.toNat_toUInt16]
  change high.toNat <<< 8 % 2 ^ 16 ||| low.toNat = _
  rw [hshift, ← Nat.shiftLeft_add_eq_or_of_lt hlow, Nat.shiftLeft_eq]
  omega

theorem word_of_bytes (word : UInt16) :
    (word >>> 8).toUInt8.toUInt16 <<< 8 ||| (word &&& 0xFF).toUInt8.toUInt16 = word := by
  apply UInt16.toNat_inj.mp
  rw [toNat_word, toNat_high, toNat_low, Nat.div_add_mod]

theorem bytesOf_injective : Function.Injective bytesOf := by
  intro word word' h
  obtain ⟨hhigh, hlow, -⟩ := by simpa only [bytesOf, List.cons.injEq] using h
  rw [← word_of_bytes word, ← word_of_bytes word', hhigh, hlow]

theorem read_succ (mem : ℕ → UInt16) (address count : ℕ) :
    read mem address (count + 1) =
      bytesOf (mem address) ++ read mem (address + 1) count := by
  simp only [read, List.range_succ_eq_map, List.flatMap_cons, List.flatMap_map, Nat.add_zero]
  congr 2
  funext k
  rw [Nat.add_right_comm, Nat.add_assoc]

@[simp] theorem length_read (mem : ℕ → UInt16) (address count : ℕ) :
    (read mem address count).length = 2 * count := by
  simp [read, bytesOf, Nat.mul_comm]

theorem read_eq_read_iff {mem mem' : ℕ → UInt16} {address address' count : ℕ} :
    read mem address count = read mem' address' count ↔
      ∀ i < count, mem (address + i) = mem' (address' + i) := by
  induction count generalizing address address' with
  | zero => simp [read]
  | succ n ih =>
      have hsplit (x y : UInt16) (xs ys : List UInt8) :
          bytesOf x ++ xs = bytesOf y ++ ys ↔ x = y ∧ xs = ys := by
        constructor
        · intro h
          obtain ⟨hword, hrest⟩ := List.append_inj h rfl
          exact ⟨bytesOf_injective hword, hrest⟩
        · rintro ⟨rfl, rfl⟩
          rfl
      rw [read_succ, read_succ, hsplit, ih, Nat.forall_lt_succ_left]
      simp only [Nat.add_zero, Nat.add_assoc, Nat.add_comm 1]

@[simp] theorem write_zero (mem : ℕ → UInt16) (address : ℕ) (data : ℕ → UInt8) :
    write mem address 0 data = mem := by
  funext i
  rw [write, if_neg (by omega)]

theorem write_succ (mem : ℕ → UInt16) (address count : ℕ) (data : ℕ → UInt8) :
    write mem address (count + 1) data =
      write (Function.update mem address (wordAt data 0)) (address + 1) count
        (fun i ↦ data (i + 2)) := by
  funext i
  rcases Nat.lt_trichotomy i address with hlt | rfl | hgt
  · rw [write, write, if_neg (by omega), if_neg (by omega),
      Function.update_of_ne (Nat.ne_of_lt hlt)]
  · rw [write, write, if_pos (by omega), if_neg (by omega), Function.update_self, Nat.sub_self]
  · rw [write, write]
    by_cases hin : i < address + (count + 1)
    · obtain ⟨k, rfl⟩ : ∃ k, i = address + 1 + k := ⟨i - (address + 1), by omega⟩
      rw [if_pos (by omega), if_pos (by omega)]
      have hleft : address + 1 + k - address = k + 1 := by omega
      have hright : address + 1 + k - (address + 1) = k := by omega
      rw [hleft, hright]
      rfl
    · rw [if_neg (by omega), if_neg (by omega), Function.update_of_ne (Nat.ne_of_gt hgt)]

theorem write_congr {mem : ℕ → UInt16} {address count : ℕ} {data data' : ℕ → UInt8}
    (h : ∀ i < 2 * count, data i = data' i) :
    write mem address count data = write mem address count data' := by
  funext i
  unfold write
  split_ifs with hin
  · rw [wordAt, wordAt, h _ (by omega), h _ (by omega)]
  · rfl

theorem write_of_not_mem {mem : ℕ → UInt16} {address count i : ℕ} {data : ℕ → UInt8}
    (h : ¬ (address ≤ i ∧ i < address + count)) : write mem address count data i = mem i :=
  if_neg h

end WordMemory
