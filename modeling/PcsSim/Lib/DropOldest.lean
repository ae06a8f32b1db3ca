import Mathlib.Data.Int.Order.Basic
import Mathlib.Tactic.Common
import PcsSim.Lib.Objects

/-!
# A bounded first-in first-out queue that drops its oldest item

The abstract queue is a list, oldest item first.  Appending to a queue that
holds `cap` items first drops the oldest.  `exec` is the queue as an object
answering calls; a reply carries the return code and the items handed out.
-/

namespace DropOldest

variable {α : Type*}

/-- Append, dropping the oldest item exactly when `cap` items are held. -/
def push (cap : ℕ) (q : List α) (x : α) : List α :=
  (if q.length = cap then q.tail else q) ++ [x]

theorem push_of_length_lt {cap : ℕ} {q : List α} (x : α) (h : q.length < cap) :
    push cap q x = q ++ [x] := by
  simp [push, Nat.ne_of_lt h]

theorem push_of_length_eq {cap : ℕ} {q : List α} (x : α) (h : q.length = cap) :
    push cap q x = q.tail ++ [x] := by
  simp [push, h]

theorem map_push {β : Type*} (f : α → β) (cap : ℕ) (q : List α) (x : α) :
    (push cap q x).map f = push cap (q.map f) (f x) := by
  unfold push
  split <;> simp [*]

theorem push_suffix (cap : ℕ) (q : List α) (x : α) : push cap q x <:+ q ++ [x] := by
  unfold push
  split
  · obtain ⟨dropped, hdropped⟩ := List.tail_suffix q
    exact ⟨dropped, by rw [← List.append_assoc, hdropped]⟩
  · exact List.suffix_rfl

/-- The calls a queue answers.  An array argument is a pointer and a size. -/
inductive Call (α : Type*)
  | queue (data : α)
  | queueArr (data : ℕ → α) (size : ℤ)
  | dequeue
  | dequeueArr (len : ℤ)
  | peek (index : ℕ)
  | numItems
  | isEmpty
  | isFull

/-- No value, one item or none with a return code, several items with their
number, or a number. -/
inductive Reply (α : Type*)
  | unit
  | item (rc : ℤ) (data : Option α)
  | items (rc : ℤ) (data : List α)
  | number (n : ℤ)

def exec (cap : ℕ) (q : List α) : Call α → List α × Reply α
  | .queue x => (push cap q x, .unit)
  | .queueArr data size =>
      (((List.range size.toNat).map data).foldl (push cap) q, .unit)
  | .dequeue => (q.tail, .item (if q.length = 0 then 0 else 1) q.head?)
  | .dequeueArr len =>
      (q.drop len.toNat, .items (min len.toNat q.length : ℕ) (q.take len.toNat))
  | .peek index => (q, .item (if index < q.length then 1 else 0) q[index]?)
  | .numItems => (q, .number q.length)
  | .isEmpty => (q, .number (if q.length = 0 then 1 else 0))
  | .isFull => (q, .number (if q.length = cap then 1 else 0))

end DropOldest
