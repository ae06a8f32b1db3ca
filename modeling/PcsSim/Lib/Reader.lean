import Mathlib.Data.List.Basic
import Mathlib.Tactic.Common

/-!
# Readers

A reader takes a value off the front of a text and leaves the rest.
`separated` reads a list of values up to a closing token.
-/

variable {τ α : Type}

abbrev Reader (τ α : Type) := List τ → Option (α × List τ)

namespace Reader

/-- Whenever the reader succeeds, `Q` holds of the text, the value and the
rest. -/
def Meets (item : Reader τ α) (Q : List τ → α → List τ → Prop) : Prop :=
  ∀ l x rest, item l = some (x, rest) → Q l x rest

/-- What is left is no longer than what was given. -/
abbrev Shrinks (item : Reader τ α) : Prop :=
  item.Meets fun l _ rest ↦ rest.length ≤ l.length

/-- Every value read satisfies `P`. -/
abbrev Yields (item : Reader τ α) (P : α → Prop) : Prop :=
  item.Meets fun _ x _ ↦ P x

section Separated

variable [DecidableEq τ] (sep close : τ) (skip : List τ → List τ) (item : Reader τ α)

/-- Values with `sep` between them, up to `close`; at most `n` of them. -/
def separated : ℕ → Reader τ (List α)
  | 0, _ => none
  | n + 1, l =>
    match item (skip l) with
    | none => none
    | some (x, rest) =>
      match skip rest with
      | [] => none
      | b :: rest =>
        if b = sep then
          (separated n rest).map fun r ↦ (x :: r.1, r.2)
        else if b = close then
          some ([x], rest)
        else
          none

variable {sep close skip item}

theorem separated_sep {l rest tail : List τ} {x : α} (hx : item (skip l) = some (x, rest))
    (hsep : skip rest = sep :: tail) (n : ℕ) :
    separated sep close skip item (n + 1) l =
      (separated sep close skip item n tail).map fun r ↦ (x :: r.1, r.2) := by
  simp [separated, hx, hsep]

theorem separated_close {l rest tail : List τ} {x : α} (hx : item (skip l) = some (x, rest))
    (hclose : skip rest = close :: tail) (hne : close ≠ sep) (n : ℕ) :
    separated sep close skip item (n + 1) l = some ([x], tail) := by
  simp [separated, hx, hclose, hne]

theorem separated_none {l : List τ} (hx : item (skip l) = none) (n : ℕ) :
    separated sep close skip item n l = none := by
  cases n with
  | zero => rfl
  | succ n => simp [separated, hx]

theorem separated_succ {n : ℕ} {l last : List τ} {xs : List α}
    (h : separated sep close skip item (n + 1) l = some (xs, last)) :
    ∃ x rest b tail, item (skip l) = some (x, rest) ∧ skip rest = b :: tail ∧
      ((b = sep ∧ ∃ ys, separated sep close skip item n tail = some (ys, last) ∧ xs = x :: ys) ∨
        (b = close ∧ xs = [x] ∧ last = tail)) := by
  cases hx : item (skip l) with
  | none => simp [separated, hx] at h
  | some r =>
      obtain ⟨x, rest⟩ := r
      cases hrest : skip rest with
      | nil => simp [separated, hx, hrest] at h
      | cons b tail =>
          refine ⟨x, rest, b, tail, rfl, hrest, ?_⟩
          simp only [separated, hx, hrest] at h
          split_ifs at h with hsep hclose
          · simp only [Option.map_eq_some_iff, Prod.mk.injEq] at h
            obtain ⟨⟨ys, last'⟩, hys, rfl, rfl⟩ := h
            exact Or.inl ⟨hsep, ys, hys, rfl⟩
          · simp only [Option.some.injEq, Prod.mk.injEq] at h
            exact Or.inr ⟨hclose, h.1.symm, h.2.symm⟩

theorem yields_separated {P : α → Prop} (hitem : Yields item P) (n : ℕ) :
    Yields (separated sep close skip item n) fun xs ↦ ∀ x ∈ xs, P x := by
  induction n with
  | zero =>
      intro l xs last h
      simp [separated] at h
  | succ n ih =>
      intro l xs last h
      obtain ⟨x, rest, b, tail, hx, -, ⟨-, ys, hys, rfl⟩ | ⟨-, rfl, -⟩⟩ := separated_succ h
      · have hhead : P x := hitem _ _ _ hx
        have htail : ∀ y ∈ ys, P y := ih _ _ _ hys
        simpa using ⟨hhead, htail⟩
      · simpa using hitem _ _ _ hx

/-- Each round uses up a token, so rounds beyond the length of the text are
never reached. -/
theorem separated_rounds (hskip : ∀ l, (skip l).length ≤ l.length) (hitem : Shrinks item)
    {l : List τ} {n m : ℕ} (hn : l.length < n) (hm : l.length < m) :
    separated sep close skip item n l = separated sep close skip item m l := by
  induction n generalizing l m with
  | zero => omega
  | succ n ih =>
      cases m with
      | zero => omega
      | succ m =>
          cases hx : item (skip l) with
          | none => simp [separated, hx]
          | some r =>
              obtain ⟨x, rest⟩ := r
              cases hrest : skip rest with
              | nil => simp [separated, hx, hrest]
              | cons b tail =>
                  have hused : tail.length < l.length := by
                    have h₁ := hskip rest
                    have h₂ := hitem _ _ _ hx
                    have h₃ := hskip l
                    rw [hrest, List.length_cons] at h₁
                    omega
                  have hround := ih (l := tail) (m := m) (by omega) (by omega)
                  simp [separated, hx, hrest, hround]

theorem shrinks_separated (hskip : ∀ l, (skip l).length ≤ l.length) (hitem : Shrinks item)
    (n : ℕ) : Shrinks (separated sep close skip item n) := by
  induction n with
  | zero =>
      intro l xs last h
      simp [separated] at h
  | succ n ih =>
      intro l xs last h
      obtain ⟨x, rest, b, tail, hx, hrest, hcase⟩ := separated_succ h
      have h₁ := hskip rest
      have h₂ := hitem _ _ _ hx
      have h₃ := hskip l
      rw [hrest, List.length_cons] at h₁
      rcases hcase with ⟨-, ys, hys, -⟩ | ⟨-, -, rfl⟩
      · have h₄ := ih _ _ _ hys
        omega
      · omega

end Separated

end Reader
