import PcsSim.CJson.Compose

/-!
# Texts that need no escapes

Pasted between quotes, a text without quotes and backslashes is read back as it
is.  Any other text is not: an escape sequence stands for fewer bytes than it
has, so what is read is shorter than what was pasted.
-/

namespace CJson

def plain (text : Bytes) : Bool := text.all fun b ↦ b ≠ quote ∧ b ≠ backslash

theorem plain_cons {b : UInt8} {text : Bytes} :
    plain (b :: text) ↔ (b ≠ quote ∧ b ≠ backslash) ∧ plain text := by
  simp [plain]

section ReadBack

variable {text : Bytes}

theorem unbroken_of_plain (h : plain text) : unbroken text := by
  have hnil : unbroken (text ++ []) = unbroken [] := unbroken_append h
  rw [List.append_nil] at hnil
  rw [hnil]
  rfl

theorem unescape_cons {b c : UInt8} (hb : b ≠ backslash) (l : Bytes) :
    unescape 0 (b :: c :: l) = (unescape 0 (c :: l)).map (b :: ·) := by
  simp [unescape, hb]

theorem unescape_plain (h : plain text) : unescape 0 (text ++ [quote]) = some text := by
  induction text with
  | nil => rfl
  | cons b text ih =>
      obtain ⟨⟨-, hb⟩, htext⟩ := plain_cons.mp h
      obtain ⟨c, l, hl⟩ := List.exists_cons_of_ne_nil (List.append_ne_nil_of_right_ne_nil text
        (List.cons_ne_nil quote []))
      have htail := ih htext
      rw [hl] at htail
      rw [List.cons_append, hl, unescape_cons hb, htail]
      rfl

theorem unquoted_plain (h : plain text) (hzero : 0 ∉ text) : unquoted text = some text := by
  have hwhole : text.takeWhile (· ≠ 0) = text := by
    apply List.takeWhile_eq_self_iff.mpr
    intro b hb
    have hne : b ≠ 0 := ne_of_mem_of_not_mem hb hzero
    simpa using hne
  rw [unquoted, unescape_plain h, Option.map_some, hwhole]

end ReadBack

section Lengths

theorem length_encodeUtf8 (firstByteMark n codepoint : ℕ) (l : Bytes) :
    (encodeUtf8 firstByteMark n codepoint l).length = l.length + n + 1 := by
  induction n generalizing codepoint l with
  | zero => rfl
  | succ n ih =>
      rw [encodeUtf8, ih, List.length_cons]
      omega

theorem length_codepointToUtf8_le {codepoint : ℕ} {out : Bytes}
    (h : codepointToUtf8 codepoint = some out) : out.length ≤ 4 := by
  unfold codepointToUtf8 at h
  split_ifs at h
  all_goals
    cases h
    rw [length_encodeUtf8]
    decide

theorem length_utf16LiteralToUtf8 {input out : Bytes} {sequenceLength : ℕ}
    (h : utf16LiteralToUtf8 input = some (out, sequenceLength)) :
    out.length < sequenceLength ∧ sequenceLength < input.length := by
  unfold utf16LiteralToUtf8 at h
  simp only at h
  split_ifs at h
  -- two literals, and one
  all_goals
    simp only [Option.map_eq_some_iff, Prod.mk.injEq] at h
    obtain ⟨bytes, hbytes, rfl, rfl⟩ := h
    have hlength := length_codepointToUtf8_le hbytes
    omega

theorem length_unescapeOne {b c : UInt8} {l out : Bytes} {sequenceLength : ℕ}
    (h : unescapeOne (b :: c :: l) = some (out, sequenceLength)) :
    out.length < sequenceLength ∧ sequenceLength ≤ l.length + 2 ∧
      (l ≠ [] → sequenceLength ≤ l.length + 1) := by
  have hchar : ∀ d : UInt8, some ([d], 2) = some (out, sequenceLength) →
      out.length < sequenceLength ∧ sequenceLength ≤ l.length + 2 ∧
        (l ≠ [] → sequenceLength ≤ l.length + 1) := by
    rintro d ⟨⟩
    refine ⟨by simp, by simp, fun hl ↦ ?_⟩
    have hpos : 0 < l.length := List.length_pos_iff.mpr hl
    omega
  simp only [unescapeOne, List.tail_cons, List.head?_cons] at h
  split_ifs at h
  · exact hchar _ h
  · exact hchar _ h
  · exact hchar _ h
  · exact hchar _ h
  · exact hchar _ h
  · exact hchar _ h
  · obtain ⟨hout, hinput⟩ := length_utf16LiteralToUtf8 h
    simp only [List.length_cons] at hinput
    exact ⟨hout, by omega, fun _ ↦ by omega⟩

theorem unescape_backslash {c : UInt8} {l out : Bytes}
    (h : unescape 0 (backslash :: c :: l) = some out) :
    ∃ bytes sequenceLength tail, unescapeOne (backslash :: c :: l) = some (bytes, sequenceLength) ∧
      unescape (sequenceLength - 1) (c :: l) = some tail ∧ out = bytes ++ tail := by
  simp only [unescape, ne_eq, not_true_eq_false, if_false] at h
  cases hone : unescapeOne (backslash :: c :: l) with
  | none => simp [hone] at h
  | some r =>
      obtain ⟨bytes, sequenceLength⟩ := r
      simp only [hone, Option.map_eq_some_iff] at h
      obtain ⟨tail, htail, rfl⟩ := h
      exact ⟨bytes, sequenceLength, tail, rfl, htail, rfl⟩

/-- The last byte is the closing quote, and `skip` bytes have been read. -/
theorem length_unescape_le {skip : ℕ} {l out : Bytes} (h : unescape skip l = some out) :
    out.length ≤ l.length - 1 - skip := by
  induction l generalizing skip out with
  | nil =>
      cases h
      simp
  | cons b l ih =>
      cases l with
      | nil =>
          cases skip <;> cases h <;> simp
      | cons c l =>
          cases skip with
          | succ skip =>
              have htail : unescape skip (c :: l) = some out := by simpa [unescape] using h
              have hle := ih htail
              simp only [List.length_cons] at hle ⊢
              omega
          | zero =>
              by_cases hb : b = backslash
              · subst hb
                obtain ⟨bytes, k, tail, hone, htail, rfl⟩ := unescape_backslash h
                have hle := ih htail
                obtain ⟨hbytes, hk, -⟩ := length_unescapeOne hone
                simp only [List.length_append, List.length_cons] at hle ⊢
                omega
              · rw [unescape_cons hb, Option.map_eq_some_iff] at h
                obtain ⟨tail, htail, rfl⟩ := h
                have hle := ih htail
                simp only [List.length_cons] at hle ⊢
                omega

/-- An escape sequence before the closing quote makes the text shorter. -/
theorem length_unescape_backslash_lt {c : UInt8} {l out : Bytes} (hl : l ≠ [])
    (h : unescape 0 (backslash :: c :: l) = some out) : out.length < l.length + 1 := by
  obtain ⟨bytes, k, tail, hone, htail, rfl⟩ := unescape_backslash h
  have hle := length_unescape_le htail
  obtain ⟨hbytes, -, hk⟩ := length_unescapeOne hone
  have hshort := hk hl
  simp only [List.length_append, List.length_cons] at hle ⊢
  omega

end Lengths

section Pasted

variable {text rest : Bytes}

theorem getElem?_of_stringLength {l : Bytes} {n : ℕ} (h : stringLength l = some n) :
    l[n]? = some quote := by
  fun_induction stringLength l generalizing n with
  | case1 => cases h
  | case2 =>
      cases h
      rfl
  | case3 => cases h
  | case4 =>
      cases h
      rfl
  | case5 c l hquote ih =>
      obtain ⟨m, hm, rfl⟩ := Option.map_eq_some_iff.mp h
      exact ih hm
  | case6 b c l hquote hslash ih =>
      obtain ⟨m, hm, rfl⟩ := Option.map_eq_some_iff.mp h
      exact ih hm

/-- The quote that closes the text is the one pasted behind it, or one in it. -/
theorem stringLength_le (hrest : quote ∉ rest) {n : ℕ}
    (h : stringLength (text ++ quote :: rest) = some n) : n ≤ text.length := by
  by_contra hlt
  have hclose := getElem?_of_stringLength h
  rw [List.getElem?_append_right (by omega), List.getElem?_cons, if_neg (by omega)] at hclose
  exact hrest (List.mem_of_getElem? hclose)

theorem stringLength_lt {l : Bytes} {n : ℕ} (h : stringLength l = some n) : n < l.length := by
  have hclose := getElem?_of_stringLength h
  by_contra hge
  rw [List.getElem?_eq_none (not_lt.mp hge)] at hclose
  cases hclose

/-- A quote in the text closes it early, a backslash stands for less than it
takes. -/
theorem length_read_lt (hrest : quote ∉ rest) (htext : ¬plain text) {n : ℕ} {out : Bytes}
    (hn : stringLength (text ++ quote :: rest) = some n)
    (hout : unescape 0 ((text ++ quote :: rest).take (n + 1)) = some out) :
    out.length < text.length := by
  induction text generalizing n out with
  | nil => exact absurd rfl htext
  | cons b text ih =>
      obtain ⟨c, l, hl⟩ := List.exists_cons_of_ne_nil
        (List.append_ne_nil_of_right_ne_nil text (List.cons_ne_nil quote rest))
      have hle := stringLength_le hrest hn
      rw [List.cons_append, hl] at hn hout
      by_cases hquote : b = quote
      · obtain rfl : n = 0 := by simpa [stringLength, hquote] using hn.symm
        cases hout
        simp
      · by_cases hslash : b = backslash
        · subst hslash
          obtain ⟨m, hm, rfl⟩ : ∃ m, stringLength l = some m ∧ m + 2 = n := by
            simpa [stringLength, hquote] using hn
          have hlength : m < l.length := stringLength_lt hm
          have htake : (l.take (m + 1)).length = m + 1 := by
            rw [List.length_take]
            omega
          have hne : l.take (m + 1) ≠ [] := by
            rw [← List.length_pos_iff, htake]
            omega
          have hlt := length_unescape_backslash_lt hne hout
          rw [htake] at hlt
          omega
        · obtain ⟨m, hm, rfl⟩ : ∃ m, stringLength (c :: l) = some m ∧ m + 1 = n := by
            simpa [stringLength, hquote, hslash] using hn
          rw [List.take_succ_cons, List.take_succ_cons, unescape_cons hslash,
            Option.map_eq_some_iff] at hout
          obtain ⟨tail, htail, rfl⟩ := hout
          have hplain : ¬plain text := by
            intro h
            exact htext (plain_cons.mpr ⟨⟨hquote, hslash⟩, h⟩)
          rw [← List.take_succ_cons, ← hl] at htail
          rw [← hl] at hm
          have hlt := ih hplain hm htail
          simp only [List.length_cons]
          omega

theorem plain_of_parseString (hrest : quote ∉ rest) {tail : Bytes}
    (h : parseString (quote :: (text ++ quote :: rest)) = some (text, tail)) : plain text := by
  by_contra htext
  simp only [parseString, ne_eq, not_true_eq_false, if_false] at h
  cases hn : stringLength (text ++ quote :: rest) with
  | none => simp [hn] at h
  | some n =>
      simp only [hn, Option.map_eq_some_iff, Prod.mk.injEq] at h
      obtain ⟨out, hout, hwhole, -⟩ := h
      have hlt := length_read_lt hrest htext hn hout
      have hle : (out.takeWhile (· ≠ 0)).length ≤ out.length :=
        (List.takeWhile_prefix _).length_le
      rw [hwhole] at hle
      omega

end Pasted

end CJson
