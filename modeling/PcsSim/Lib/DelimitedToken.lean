import Mathlib.Data.List.Basic
import Mathlib.Tactic.Common

/-!
# Tokens between delimiters

A token ends at the next delimiter that is not doubled; a doubled one stands
for one delimiter in its value.
-/

namespace DelimitedToken

variable {α : Type*} [DecidableEq α] {q : α}

/-- The value of the token and what follows it, from behind the opening
delimiter on. -/
def read (q : α) : List α → Option (List α × List α)
  | [] => none
  | [b] => if b = q then some ([], []) else none
  | b :: c :: l =>
    if b = q then
      if c = q then (read q l).map fun r ↦ (q :: r.1, r.2) else some ([], c :: l)
    else (read q (c :: l)).map fun r ↦ (b :: r.1, r.2)

/-- The text of a token with the given value. -/
def doubled (q : α) (value : List α) : List α :=
  value.flatMap fun b ↦ if b = q then [q, q] else [b]

theorem doubled_cons_self (value : List α) :
    doubled q (q :: value) = q :: q :: doubled q value := by
  simp [doubled]

theorem doubled_cons_of_ne {b : α} (hb : b ≠ q) (value : List α) :
    doubled q (b :: value) = b :: doubled q value := by
  simp [doubled, hb]

theorem read_cons_of_ne {b c : α} (hb : b ≠ q) (l : List α) :
    read q (b :: c :: l) = (read q (c :: l)).map fun r ↦ (b :: r.1, r.2) := by
  rw [read, if_neg hb]

theorem read_end {rest : List α} (hrest : rest.head? ≠ some q) :
    read q (q :: rest) = some ([], rest) := by
  cases rest with
  | nil => simp [read]
  | cons c l =>
      have hc : c ≠ q := by simpa using hrest
      simp [read, hc]

/-- A token is read up to its delimiter, whatever comes after it. -/
theorem read_doubled (value : List α) {rest : List α} (hrest : rest.head? ≠ some q) :
    read q (doubled q value ++ q :: rest) = some (value, rest) := by
  induction value with
  | nil => exact read_end hrest
  | cons b value ih =>
      by_cases hb : b = q
      · subst hb
        rw [doubled_cons_self, List.cons_append, List.cons_append, read, if_pos rfl, if_pos rfl, ih]
        rfl
      · rw [doubled_cons_of_ne hb, List.cons_append]
        obtain ⟨c, l, hl⟩ := List.exists_cons_of_ne_nil
          (List.append_ne_nil_of_right_ne_nil (doubled q value) (List.cons_ne_nil q rest))
        rw [hl] at ih
        rw [hl, read_cons_of_ne hb, ih]
        rfl

theorem eq_of_read {l value rest : List α} (h : read q l = some (value, rest)) :
    l = doubled q value ++ q :: rest := by
  induction l using read.induct q generalizing value with
  | case1 => cases h
  | case2 =>
      rw [read, if_pos rfl] at h
      obtain ⟨rfl, rfl⟩ := Prod.mk.inj (Option.some.inj h)
      rfl
  | case3 b hb =>
      rw [read, if_neg hb] at h
      cases h
  | case4 l ih =>
      rw [read, if_pos rfl, if_pos rfl, Option.map_eq_some_iff] at h
      obtain ⟨⟨value', rest'⟩, hread, hvalue⟩ := h
      obtain ⟨rfl, rfl⟩ := Prod.mk.inj hvalue
      rw [doubled_cons_self, ih hread]
      rfl
  | case5 c l hc =>
      rw [read, if_pos rfl, if_neg hc] at h
      obtain ⟨rfl, rfl⟩ := Prod.mk.inj (Option.some.inj h)
      rfl
  | case6 b c l hb ih =>
      rw [read_cons_of_ne hb, Option.map_eq_some_iff] at h
      obtain ⟨⟨value', rest'⟩, hread, hvalue⟩ := h
      obtain ⟨rfl, rfl⟩ := Prod.mk.inj hvalue
      rw [doubled_cons_of_ne hb, ih hread]
      rfl

theorem doubled_eq_self {text : List α} (h : q ∉ text) : doubled q text = text := by
  induction text with
  | nil => rfl
  | cons b text ih =>
      obtain ⟨hb, htext⟩ := List.ne_and_not_mem_of_not_mem_cons h
      rw [doubled_cons_of_ne hb.symm, ih htext]

theorem length_doubled (value : List α) :
    (doubled q value).length = value.length + value.count q := by
  induction value with
  | nil => rfl
  | cons b value ih =>
      by_cases hb : b = q
      · subst hb
        rw [doubled_cons_self, List.count_cons_self, List.length_cons, List.length_cons, ih,
          List.length_cons]
        omega
      · rw [doubled_cons_of_ne hb, List.count_cons_of_ne hb, List.length_cons, ih,
          List.length_cons]
        omega

theorem mem_doubled {b : α} {value : List α} (hb : b ∈ value) : b ∈ doubled q value := by
  refine List.mem_flatMap.mpr ⟨b, hb, ?_⟩
  split_ifs with h
  · exact h ▸ List.mem_cons_self
  · exact List.mem_cons_self

theorem read_append {text rest : List α} (htext : q ∉ text) (hrest : rest.head? ≠ some q) :
    read q (text ++ q :: rest) = some (text, rest) := by
  have hread := read_doubled text hrest
  rwa [doubled_eq_self htext] at hread

end DelimitedToken
