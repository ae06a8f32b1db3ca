import PcsSim.Lib.CCalls

/-!
# Arrays of characters

An array holds whatever was left in it.  The functions that write into one do
not look at its size, so a text that does not fit is an overrun, and so is
reading an array as a text when it holds no NUL.
-/

structure CharArray (n : ℕ) where
  bytes : Bytes
  size : bytes.length = n

namespace CharArray

variable {n : ℕ}

def strcpy (dst : CharArray n) (src : Bytes) : Except Fault (CharArray n) :=
  if h : src.length < n then
    .ok ⟨src ++ 0 :: dst.bytes.drop (src.length + 1), by
      rw [List.length_append, List.length_cons, List.length_drop, dst.size]
      omega⟩
  else .error .overrun

/-- At most `len` characters of `src`, and NULs up to `len` where `src` is shorter.
Nothing is written behind these. -/
def strncpy (dst : CharArray n) (src : Bytes) (len : ℕ) : Except Fault (CharArray n) :=
  if h : len ≤ n then
    .ok ⟨((src.takeWhile (· ≠ 0)).take len).rightpad len 0 ++ dst.bytes.drop len, by
      rw [List.length_append, List.length_rightpad, List.length_drop, dst.size,
        Nat.max_eq_left (List.length_take_le _ _)]
      exact Nat.add_sub_of_le h⟩
  else .error .overrun

def string (a : CharArray n) : Except Fault Bytes :=
  if 0 ∈ a.bytes then .ok (a.bytes.takeWhile (· ≠ 0)) else .error .overrun

theorem strcpy_eq_ok {src : Bytes} (h : src.length < n) (dst : CharArray n) :
    ∃ a, dst.strcpy src = .ok a ∧ a.bytes = src ++ 0 :: dst.bytes.drop (src.length + 1) := by
  rw [strcpy, dif_pos h]
  exact ⟨_, rfl, rfl⟩

theorem lt_of_strcpy {src : Bytes} {dst a : CharArray n} (h : dst.strcpy src = .ok a) :
    src.length < n := by
  rw [strcpy] at h
  split_ifs at h with hlt
  exact hlt

theorem takeWhile_ne_zero {s : Bytes} (hs : 0 ∉ s) (rest : Bytes) :
    (s ++ rest).takeWhile (· ≠ 0) = s ++ rest.takeWhile (· ≠ 0) := by
  apply List.takeWhile_append_of_pos
  intro b hb
  have hne : b ≠ 0 := fun h ↦ hs (h ▸ hb)
  exact decide_eq_true hne

/-- A text copied with its own length is not ended. -/
theorem strncpy_eq_ok {src : Bytes} (h : src.length ≤ n) (hsrc : 0 ∉ src) (dst : CharArray n) :
    ∃ a, dst.strncpy src src.length = .ok a ∧ a.bytes = src ++ dst.bytes.drop src.length := by
  rw [strncpy, dif_pos h]
  have hall : src.takeWhile (· ≠ 0) = src := by simpa using takeWhile_ne_zero hsrc []
  refine ⟨_, rfl, ?_⟩
  dsimp only
  rw [hall, List.take_length, List.rightpad, Nat.sub_self, List.replicate_zero, List.append_nil]

theorem string_eq_ok_iff {a : CharArray n} {s rest : Bytes} (hs : 0 ∉ s)
    (ha : a.bytes = s ++ rest) : a.string = .ok s ↔ rest.head? = some 0 := by
  unfold string
  rw [ha, takeWhile_ne_zero hs]
  cases rest with
  | nil => simp [hs]
  | cons b rest =>
      by_cases hb : b = 0
      · simp [hb]
      · simp only [List.head?_cons, Option.some.injEq, hb, iff_false]
        split_ifs
        · simp [hb]
        · simp

end CharArray
