import Mathlib.Data.List.Pairwise
import Mathlib.Data.List.Perm.Basic
import Mathlib.Order.Defs.Unbundled

/-!
# Sorting by exchange

A pass exchanges its element with each later one that may not come after it, so
that it ends with one that may come before all others.
-/

namespace ExchangeSort

variable {α : Type*} (r : α → α → Prop) [DecidableRel r]

def pass (x : α) : List α → α × List α
  | [] => (x, [])
  | y :: ys =>
      if r x y then ((pass x ys).1, y :: (pass x ys).2)
      else ((pass y ys).1, x :: (pass y ys).2)

theorem pass_cons_of_le {x y : α} (h : r x y) (ys : List α) :
    pass r x (y :: ys) = ((pass r x ys).1, y :: (pass r x ys).2) := if_pos h

theorem pass_cons_of_not_le {x y : α} (h : ¬r x y) (ys : List α) :
    pass r x (y :: ys) = ((pass r y ys).1, x :: (pass r y ys).2) := if_neg h

theorem perm_pass (x : α) (ys : List α) :
    ((pass r x ys).1 :: (pass r x ys).2).Perm (x :: ys) := by
  induction ys generalizing x with
  | nil => exact .refl _
  | cons y ys ih =>
      by_cases h : r x y
      · rw [pass_cons_of_le r h]
        have hlater : (y :: (pass r x ys).1 :: (pass r x ys).2).Perm (y :: x :: ys) := (ih x).cons y
        exact (List.Perm.swap _ _ _).trans (hlater.trans (.swap _ _ _))
      · rw [pass_cons_of_not_le r h]
        exact (List.Perm.swap _ _ _).trans ((ih y).cons x)

theorem length_pass (x : α) (ys : List α) : (pass r x ys).2.length = ys.length := by
  simpa using (perm_pass r x ys).length_eq

variable {r} (htotal : ∀ x y, r x y ∨ r y x) (htrans : ∀ {x y z}, r x y → r y z → r x z)

include htotal htrans in
theorem pass_le (x : α) (ys : List α) :
    r (pass r x ys).1 x ∧ ∀ z ∈ (pass r x ys).2, r (pass r x ys).1 z := by
  induction ys generalizing x with
  | nil => exact ⟨(htotal x x).elim id id, by simp [pass]⟩
  | cons y ys ih =>
      by_cases h : r x y
      · obtain ⟨hx, hrest⟩ := ih x
        rw [pass_cons_of_le r h]
        refine ⟨hx, ?_⟩
        rintro z (_ | ⟨_, hz⟩)
        · exact htrans hx h
        · exact hrest z hz
      · obtain ⟨hy, hrest⟩ := ih y
        have hx : r (pass r y ys).1 x := htrans hy ((htotal x y).resolve_left h)
        rw [pass_cons_of_not_le r h]
        refine ⟨hx, ?_⟩
        rintro z (_ | ⟨_, hz⟩)
        · exact hx
        · exact hrest z hz

variable (r)

def sort : List α → List α
  | [] => []
  | x :: xs => (pass r x xs).1 :: sort (pass r x xs).2
termination_by xs => xs.length
decreasing_by simp [length_pass]

theorem sort_cons (x : α) (xs : List α) :
    sort r (x :: xs) = (pass r x xs).1 :: sort r (pass r x xs).2 := by
  rw [sort]

theorem perm_sort (xs : List α) : (sort r xs).Perm xs := by
  induction xs using sort.induct r with
  | case1 =>
      rw [sort]
  | case2 x xs ih =>
      rw [sort_cons]
      exact (ih.cons _).trans (perm_pass r x xs)

variable {r}

include htotal htrans in
theorem pairwise_sort (xs : List α) : (sort r xs).Pairwise r := by
  induction xs using sort.induct r with
  | case1 =>
      rw [sort]
      exact .nil
  | case2 x xs ih =>
      rw [sort_cons]
      apply List.pairwise_cons.mpr
      refine ⟨fun z hz ↦ ?_, ih⟩
      exact (pass_le htotal htrans x xs).2 z ((perm_sort r _).mem_iff.mp hz)

end ExchangeSort
