import PcsSim.RingBuffer.Basic
import Mathlib.Tactic.Ring

/-!
# What a ring buffer holds

`contents` reads the items off the circular array, oldest first.  Each
operation has one lemma that says what it does to the contents; later modules
use these and never unfold the operations.  The size is `2 ^ k` with `0 < k`.
-/

namespace RingBuffer

variable {α : Type*} {k : ℕ} {b : RingBuffer α}

structure InRange (size : ℤ) (b : RingBuffer α) : Prop where
  tail_nonneg : 0 ≤ b.tailIndex
  tail_lt : b.tailIndex < size
  head_nonneg : 0 ≤ b.headIndex
  head_lt : b.headIndex < size

def count (size : ℤ) (b : RingBuffer α) : ℕ :=
  ((b.headIndex - b.tailIndex) % size).toNat

def contents (size : ℤ) (b : RingBuffer α) : List α :=
  Circular.window b.buffer size b.tailIndex (b.count size)

@[simp] theorem length_contents (size : ℤ) (b : RingBuffer α) :
    (b.contents size).length = b.count size :=
  Circular.length_window ..

theorem two_pow_pos : (0 : ℤ) < 2 ^ k := Int.pow_pos (by decide)

theorem one_lt_two_pow (hk : 0 < k) : (1 : ℤ) < 2 ^ k := by
  exact_mod_cast Nat.one_lt_two_pow hk.ne'

theorem cast_count (b : RingBuffer α) :
    (b.count (2 ^ k) : ℤ) = (b.headIndex - b.tailIndex) % 2 ^ k :=
  Int.toNat_of_nonneg (Int.emod_nonneg _ two_pow_pos.ne')

theorem count_lt (b : RingBuffer α) : (b.count (2 ^ k) : ℤ) < 2 ^ k := by
  rw [cast_count]
  exact Int.emod_lt_of_pos _ two_pow_pos

theorem head_eq (h : InRange (2 ^ k) b) :
    b.headIndex = (b.tailIndex + b.count (2 ^ k)) % 2 ^ k := by
  rw [cast_count, Int.add_emod_emod]
  have hsum : b.tailIndex + (b.headIndex - b.tailIndex) = b.headIndex := by ring
  rw [hsum, Int.emod_eq_of_lt h.head_nonneg h.head_lt]

theorem numItems_eq (b : RingBuffer α) :
    b.numItems (2 ^ k - 1) = b.count (2 ^ k) := by
  rw [numItems, Circular.land_two_pow_sub_one, cast_count]

theorem isFull_ne_zero_iff (b : RingBuffer α) :
    b.isFull (2 ^ k - 1) ≠ 0 ↔ (b.count (2 ^ k) : ℤ) = 2 ^ k - 1 := by
  rw [isFull, Circular.land_two_pow_sub_one, cast_count]
  split <;> simp_all

theorem isEmpty_ne_zero_iff (h : InRange (2 ^ k) b) :
    b.isEmpty ≠ 0 ↔ b.count (2 ^ k) = 0 := by
  have hempty : b.isEmpty ≠ 0 ↔ b.headIndex = b.tailIndex := by
    unfold isEmpty
    split <;> simp_all
  rw [hempty]
  constructor
  · intro heq
    simp [count, heq]
  · intro hzero
    have hhead := head_eq h
    rwa [hzero, Nat.cast_zero, add_zero, Int.emod_eq_of_lt h.tail_nonneg h.tail_lt] at hhead

theorem contents_eq_nil_iff {size : ℤ} : b.contents size = [] ↔ b.count size = 0 := by
  rw [← List.length_eq_zero_iff, length_contents]

/-! ## The two index moves -/

def advanceTail (size : ℤ) (b : RingBuffer α) : RingBuffer α :=
  { b with tailIndex := (b.tailIndex + 1) % size }

def store (size : ℤ) (b : RingBuffer α) (data : α) : RingBuffer α :=
  { b with
    buffer := Function.update b.buffer b.headIndex data
    headIndex := (b.headIndex + 1) % size }

theorem inRange_init (b : RingBuffer α) : InRange (2 ^ k) b.init :=
  ⟨le_rfl, two_pow_pos, le_rfl, two_pow_pos⟩

theorem InRange.advanceTail (h : InRange (2 ^ k) b) :
    InRange (2 ^ k) (b.advanceTail (2 ^ k)) where
  tail_nonneg := Int.emod_nonneg _ two_pow_pos.ne'
  tail_lt := Int.emod_lt_of_pos _ two_pow_pos
  head_nonneg := h.head_nonneg
  head_lt := h.head_lt

theorem InRange.store (h : InRange (2 ^ k) b) (data : α) :
    InRange (2 ^ k) (b.store (2 ^ k) data) where
  tail_nonneg := h.tail_nonneg
  tail_lt := h.tail_lt
  head_nonneg := Int.emod_nonneg _ two_pow_pos.ne'
  head_lt := Int.emod_lt_of_pos _ two_pow_pos

theorem count_advanceTail (hpos : 0 < b.count (2 ^ k)) :
    (b.advanceTail (2 ^ k)).count (2 ^ k) = b.count (2 ^ k) - 1 := by
  have hcast : ((b.advanceTail (2 ^ k)).count (2 ^ k) : ℤ) = b.count (2 ^ k) - 1 := by
    have hlt := count_lt (k := k) b
    rw [cast_count, advanceTail, Int.sub_emod_emod]
    calc (b.headIndex - (b.tailIndex + 1)) % 2 ^ k
        = ((b.headIndex - b.tailIndex) % 2 ^ k - 1) % 2 ^ k := by
          rw [Int.emod_sub_emod]
          congr 1
          ring
      _ = (b.count (2 ^ k) - 1) % 2 ^ k := by rw [cast_count]
      _ = b.count (2 ^ k) - 1 := Int.emod_eq_of_lt (by omega) (by omega)
  omega

theorem contents_advanceTail (hpos : 0 < b.count (2 ^ k)) :
    (b.advanceTail (2 ^ k)).contents (2 ^ k) = (b.contents (2 ^ k)).tail := by
  obtain ⟨n, hn⟩ : ∃ n, b.count (2 ^ k) = n + 1 := ⟨b.count (2 ^ k) - 1, by omega⟩
  rw [contents, count_advanceTail hpos, contents, hn, Circular.window_succ_left]
  rfl

theorem head?_contents (h : InRange (2 ^ k) b) (hpos : 0 < b.count (2 ^ k)) :
    (b.contents (2 ^ k)).head? = some (b.buffer b.tailIndex) := by
  obtain ⟨n, hn⟩ : ∃ n, b.count (2 ^ k) = n + 1 := ⟨b.count (2 ^ k) - 1, by omega⟩
  rw [contents, hn, Circular.window_succ_left, List.head?_cons,
    Int.emod_eq_of_lt h.tail_nonneg h.tail_lt]

theorem count_store (hroom : (b.count (2 ^ k) : ℤ) < 2 ^ k - 1) (data : α) :
    (b.store (2 ^ k) data).count (2 ^ k) = b.count (2 ^ k) + 1 := by
  have hcast : ((b.store (2 ^ k) data).count (2 ^ k) : ℤ) = b.count (2 ^ k) + 1 := by
    rw [cast_count, store, Int.emod_sub_emod]
    calc (b.headIndex + 1 - b.tailIndex) % 2 ^ k
        = ((b.headIndex - b.tailIndex) % 2 ^ k + 1) % 2 ^ k := by
          rw [Int.emod_add_emod]
          congr 1
          ring
      _ = (b.count (2 ^ k) + 1) % 2 ^ k := by rw [cast_count]
      _ = b.count (2 ^ k) + 1 := Int.emod_eq_of_lt (by omega) (by omega)
  omega

theorem contents_store (h : InRange (2 ^ k) b)
    (hroom : (b.count (2 ^ k) : ℤ) < 2 ^ k - 1) (data : α) :
    (b.store (2 ^ k) data).contents (2 ^ k) = b.contents (2 ^ k) ++ [data] := by
  have hlt := count_lt (k := k) b
  rw [contents, count_store hroom, Circular.window_succ]
  simp only [store, head_eq h, Circular.window_update_end _ _ hlt, Function.update_self,
    contents]

/-! ## The operations -/

theorem contents_init (b : RingBuffer α) : b.init.contents (2 ^ k) = [] := by
  simp [contents_eq_nil_iff, count, init]

/-- Queueing is a store, after dropping the oldest item of a full buffer. -/
theorem queue_eq (b : RingBuffer α) (data : α) :
    b.queue (2 ^ k - 1) data =
      (if (b.count (2 ^ k) : ℤ) = 2 ^ k - 1 then b.advanceTail (2 ^ k) else b).store
        (2 ^ k) data := by
  by_cases hfull : (b.count (2 ^ k) : ℤ) = 2 ^ k - 1
  · rw [if_pos hfull, queue, if_pos ((isFull_ne_zero_iff b).mpr hfull)]
    simp only [Circular.land_two_pow_sub_one, store, advanceTail]
  · rw [if_neg hfull, queue, if_neg (mt (isFull_ne_zero_iff b).mp hfull)]
    simp only [Circular.land_two_pow_sub_one, store]

theorem InRange.queue (h : InRange (2 ^ k) b) (data : α) :
    InRange (2 ^ k) (b.queue (2 ^ k - 1) data) := by
  rw [queue_eq]
  split
  · exact h.advanceTail.store data
  · exact h.store data

theorem contents_queue (hk : 0 < k) (h : InRange (2 ^ k) b) (data : α) :
    (b.queue (2 ^ k - 1) data).contents (2 ^ k) =
      DropOldest.push (2 ^ k - 1) (b.contents (2 ^ k)) data := by
  have hsize := one_lt_two_pow hk
  have hlt := count_lt (k := k) b
  have hcap : ((2 ^ k - 1 : ℕ) : ℤ) = 2 ^ k - 1 := by
    simp [Nat.cast_sub Nat.one_le_two_pow]
  rw [queue_eq]
  by_cases hfull : (b.count (2 ^ k) : ℤ) = 2 ^ k - 1
  · have hpos : 0 < b.count (2 ^ k) := by omega
    have hroom : ((b.advanceTail (2 ^ k)).count (2 ^ k) : ℤ) < 2 ^ k - 1 := by
      rw [count_advanceTail hpos]
      omega
    rw [if_pos hfull, contents_store h.advanceTail hroom, contents_advanceTail hpos,
      DropOldest.push_of_length_eq]
    rw [length_contents]
    omega
  · rw [if_neg hfull, contents_store h (by omega), DropOldest.push_of_length_lt]
    rw [length_contents]
    omega

theorem dequeue_of_empty (hzero : b.contents (2 ^ k) = []) (h : InRange (2 ^ k) b) :
    b.dequeue (2 ^ k - 1) = (b, 0, none) := by
  rw [dequeue, if_pos ((isEmpty_ne_zero_iff h).mpr (contents_eq_nil_iff.mp hzero))]

theorem dequeue_of_ne_nil (hne : b.contents (2 ^ k) ≠ []) (h : InRange (2 ^ k) b) :
    b.dequeue (2 ^ k - 1) =
      (b.advanceTail (2 ^ k), 1, (b.contents (2 ^ k)).head?) := by
  have hzero : b.count (2 ^ k) ≠ 0 := mt contents_eq_nil_iff.mpr hne
  rw [dequeue, if_neg (mt (isEmpty_ne_zero_iff h).mp hzero),
    head?_contents h (Nat.pos_of_ne_zero hzero), Circular.land_two_pow_sub_one, advanceTail]

theorem InRange.dequeue (h : InRange (2 ^ k) b) :
    InRange (2 ^ k) (b.dequeue (2 ^ k - 1)).1 := by
  by_cases hne : b.contents (2 ^ k) = []
  · rwa [dequeue_of_empty hne h]
  · rw [dequeue_of_ne_nil hne h]
    exact h.advanceTail

theorem dequeue_spec (h : InRange (2 ^ k) b) :
    (b.dequeue (2 ^ k - 1)).1.contents (2 ^ k) = (b.contents (2 ^ k)).tail ∧
      (b.dequeue (2 ^ k - 1)).2 =
        (if (b.contents (2 ^ k)).length = 0 then 0 else 1, (b.contents (2 ^ k)).head?) := by
  by_cases hne : b.contents (2 ^ k) = []
  · rw [dequeue_of_empty hne h]
    simp [hne]
  · have hpos : 0 < b.count (2 ^ k) :=
      Nat.pos_of_ne_zero (mt contents_eq_nil_iff.mpr hne)
    rw [dequeue_of_ne_nil hne h]
    refine ⟨contents_advanceTail hpos, ?_⟩
    simp [hpos.ne']

theorem peek_spec (b : RingBuffer α) (index : ℕ) :
    b.peek (2 ^ k - 1) index =
      (if index < (b.contents (2 ^ k)).length then 1 else 0,
        (b.contents (2 ^ k))[index]?) := by
  rw [peek, numItems_eq, length_contents]
  by_cases hlt : index < b.count (2 ^ k)
  · rw [if_neg (by omega), if_pos hlt, contents, Circular.getElem?_window _ _ _ hlt,
      Circular.land_two_pow_sub_one]
  · rw [if_pos (by omega), if_neg hlt, List.getElem?_eq_none (by simpa using hlt)]

theorem isFull_iff_length (b : RingBuffer α) :
    b.isFull (2 ^ k - 1) ≠ 0 ↔ (b.contents (2 ^ k)).length = 2 ^ k - 1 := by
  have hcap : ((2 ^ k - 1 : ℕ) : ℤ) = 2 ^ k - 1 := by
    simp [Nat.cast_sub Nat.one_le_two_pow]
  rw [isFull_ne_zero_iff, length_contents, ← hcap, Nat.cast_inj]

theorem contents_queue_of_room (hk : 0 < k) (h : InRange (2 ^ k) b)
    (hroom : (b.contents (2 ^ k)).length ≠ 2 ^ k - 1) (data : α) :
    (b.queue (2 ^ k - 1) data).contents (2 ^ k) = b.contents (2 ^ k) ++ [data] := by
  rw [contents_queue hk h, DropOldest.push, if_neg hroom]

/-- The item that a full buffer loses is the one that a peek finds. -/
theorem contents_queue_of_full (hk : 0 < k) (h : InRange (2 ^ k) b)
    (hfull : (b.contents (2 ^ k)).length = 2 ^ k - 1) (data : α) :
    ∃ oldest rest, b.contents (2 ^ k) = oldest :: rest ∧
      (b.queue (2 ^ k - 1) data).contents (2 ^ k) = rest ++ [data] ∧
      (b.peek (2 ^ k - 1) 0).2 = some oldest := by
  have hpos : 0 < (b.contents (2 ^ k)).length := by
    have := Nat.one_lt_two_pow hk.ne'
    omega
  obtain ⟨oldest, rest, hcons⟩ := List.exists_cons_of_length_pos hpos
  refine ⟨oldest, rest, hcons, ?_, ?_⟩
  · rw [contents_queue hk h, DropOldest.push_of_length_eq _ hfull, hcons, List.tail_cons]
  · have hpeek := congrArg Prod.snd (peek_spec (k := k) b 0)
    rw [hcons] at hpeek
    exact hpeek

theorem queueArrLoop_eq (mask : ℤ) (data : ℕ → α) (n i : ℕ) (b : RingBuffer α) :
    queueArrLoop mask data n i b =
      ((List.range' i n).map data).foldl (queue mask) b := by
  induction n generalizing i b with
  | zero => rfl
  | succ n ih => simp [queueArrLoop, List.range'_succ, ih]

theorem queueArr_eq (mask : ℤ) (b : RingBuffer α) (data : ℕ → α) (size : ℤ) :
    b.queueArr mask data size = ((List.range size.toNat).map data).foldl (queue mask) b := by
  rw [queueArr, queueArrLoop_eq, List.range_eq_range']

theorem contents_foldl_queue (hk : 0 < k) (xs : List α) (h : InRange (2 ^ k) b) :
    InRange (2 ^ k) (xs.foldl (queue (2 ^ k - 1)) b) ∧
      (xs.foldl (queue (2 ^ k - 1)) b).contents (2 ^ k) =
        xs.foldl (DropOldest.push (2 ^ k - 1)) (b.contents (2 ^ k)) := by
  induction xs generalizing b with
  | nil => exact ⟨h, rfl⟩
  | cons x xs ih =>
      have hx := ih (h.queue x)
      rw [contents_queue hk h] at hx
      exact hx

/-- The loop hands out the oldest items one after the other. -/
theorem dequeueArrLoop_spec (n : ℕ) (data : List α) (h : InRange (2 ^ k) b) :
    InRange (2 ^ k) (dequeueArrLoop (2 ^ k - 1) n b data).1 ∧
      (dequeueArrLoop (2 ^ k - 1) n b data).1.contents (2 ^ k) =
        (b.contents (2 ^ k)).drop n ∧
      (dequeueArrLoop (2 ^ k - 1) n b data).2 = data ++ (b.contents (2 ^ k)).take n := by
  induction n generalizing b data with
  | zero => simp [dequeueArrLoop, h]
  | succ n ih =>
      by_cases hne : b.contents (2 ^ k) = []
      · simp [dequeueArrLoop, dequeue_of_empty hne h, hne, h]
      · obtain ⟨x, rest, hx⟩ := List.exists_cons_of_ne_nil hne
        have hpos : 0 < b.count (2 ^ k) :=
          Nat.pos_of_ne_zero (mt contents_eq_nil_iff.mpr hne)
        have htail := contents_advanceTail hpos
        have hloop := ih (data ++ [x]) h.advanceTail
        rw [htail, hx] at hloop
        simpa [dequeueArrLoop, dequeue_of_ne_nil hne h, hx] using hloop

theorem dequeueArr_spec (h : InRange (2 ^ k) b) (len : ℤ) :
    InRange (2 ^ k) (b.dequeueArr (2 ^ k - 1) len).1 ∧
      (b.dequeueArr (2 ^ k - 1) len).1.contents (2 ^ k) =
        (b.contents (2 ^ k)).drop len.toNat ∧
      (b.dequeueArr (2 ^ k - 1) len).2 =
        (((min len.toNat (b.contents (2 ^ k)).length : ℕ) : ℤ),
          (b.contents (2 ^ k)).take len.toNat) := by
  by_cases hne : b.contents (2 ^ k) = []
  · rw [dequeueArr, if_pos ((isEmpty_ne_zero_iff h).mpr (contents_eq_nil_iff.mp hne))]
    simp [hne, h]
  · have hzero : b.count (2 ^ k) ≠ 0 := mt contents_eq_nil_iff.mpr hne
    obtain ⟨hrange, hcontents, hdata⟩ := dequeueArrLoop_spec len.toNat [] h
    rw [dequeueArr, if_neg (mt (isEmpty_ne_zero_iff h).mp hzero)]
    refine ⟨hrange, hcontents, ?_⟩
    simp [hdata]

end RingBuffer
