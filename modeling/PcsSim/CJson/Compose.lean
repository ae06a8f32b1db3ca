import Mathlib.Data.List.TakeWhile
import PcsSim.CJson.Parse

/-!
# Reading back what was composed

A text pasted between quotes is read back whole when no quote in it closes the
string and no escape sequence is left open at its end; a number printed with
`%lld` is read back whole.
-/

namespace CJson

variable {D : Type} {ops : Numbers D}

section Strings

/-- No quote closes the string and no backslash is left open at the end. -/
def unbroken : Bytes → Bool
  | [] => true
  | [b] => b ≠ quote ∧ b ≠ backslash
  | b :: c :: l =>
    if b = quote then false
    else if b = backslash then unbroken l
    else unbroken (c :: l)

/-- The text of a string literal as a C string, if its escape sequences are
valid. -/
def unquoted (text : Bytes) : Option Bytes :=
  (unescape 0 (text ++ [quote])).map fun output ↦ output.takeWhile (· ≠ 0)

theorem unbroken_append {p text : Bytes} (hp : p.all fun b ↦ b ≠ quote ∧ b ≠ backslash) :
    unbroken (p ++ text) = unbroken text := by
  induction p with
  | nil => rfl
  | cons b p ih =>
      simp only [List.all_cons, Bool.and_eq_true, decide_eq_true_eq] at hp
      obtain ⟨hb, hp⟩ := hp
      rw [← ih hp, List.cons_append]
      cases p ++ text with
      | nil => simp [unbroken, hb.1, hb.2]
      | cons c l => simp [unbroken, hb.1, hb.2]

theorem stringLength_unbroken {text : Bytes} (h : unbroken text) (rest : Bytes) :
    stringLength (text ++ quote :: rest) = some text.length := by
  fun_induction unbroken text with
  | case1 => cases rest <;> simp [stringLength]
  | case2 b =>
      have hb : b ≠ quote ∧ b ≠ backslash := by simpa using h
      cases rest <;> simp [stringLength, hb.1, hb.2]
  | case3 => simp at h
  | case4 c l hb ih =>
      have hlength := ih h
      simp [stringLength, hlength, hb]
  | case5 b c l hquote hslash ih =>
      have hlength := ih h
      simp only [List.cons_append] at hlength
      simp [stringLength, hquote, hslash, hlength]

theorem parseString_unbroken {text : Bytes} (h : unbroken text) (rest : Bytes) :
    parseString (quote :: (text ++ quote :: rest)) = (unquoted text).map fun s ↦ (s, rest) := by
  have htake : (text ++ quote :: rest).take (text.length + 1) = text ++ [quote] := by
    simp [List.take_append]
  have hdrop : (text ++ quote :: rest).drop (text.length + 1) = rest := by
    simp [List.drop_append]
  simp only [parseString, ne_eq, not_true_eq_false, if_false, stringLength_unbroken h, htake,
    hdrop, unquoted, Option.map_map]
  rfl

end Strings

section NumberTexts

theorem decimal_eq_sign_digits (z : ℤ) :
    ∃ sign digits, decimal z = sign ++ digits ∧ (sign = [] ∨ sign = [45]) ∧ digits ≠ [] ∧
      ∀ b ∈ digits, isDigit b := by
  have hdigit (n : ℕ) : ∀ b ∈ decimalNat n, isDigit b := by
    intro b hb
    simpa [isDigit] using digit_of_mem_decimalNat hb
  cases z with
  | ofNat n => exact ⟨[], decimalNat n, rfl, Or.inl rfl, decimalNat_ne_nil n, hdigit n⟩
  | negSucc n =>
      exact ⟨[45], decimalNat (n + 1), rfl, Or.inr rfl, decimalNat_ne_nil _, hdigit _⟩

theorem strtodLength_sign_digits {sign digits : Bytes} (hsign : sign = [] ∨ sign = [45])
    (hne : digits ≠ []) (hdigits : ∀ b ∈ digits, isDigit b) :
    strtodLength (sign ++ digits) = (sign ++ digits).length := by
  have hwhole : digits.takeWhile isDigit = digits :=
    List.takeWhile_eq_self_iff.mpr hdigits
  have hlength : digits.length ≠ 0 := by simpa using hne
  have hskip : signLength (sign ++ digits) = sign.length := by
    rcases hsign with rfl | rfl
    · cases digits with
      | nil => rfl
      | cons b l =>
          have hb := hdigits b (by simp)
          have hnosign : ¬(b = 43 ∨ b = 45) := by
            rintro (rfl | rfl) <;> exact absurd hb (by decide)
          simp [signLength, hnosign]
    · rfl
  simp [strtodLength, hskip, hwhole, hlength, exponentLength]

theorem numberByte_of_decimal {z : ℤ} {b : UInt8} (hb : b ∈ decimal z) : isNumberByte b := by
  obtain ⟨sign, digits, heq, hsign, -, hdigits⟩ := decimal_eq_sign_digits z
  rw [heq, List.mem_append] at hb
  rcases hb with hb | hb
  · rcases hsign with rfl | rfl
    · simp at hb
    · obtain rfl : b = 45 := by simpa using hb
      decide
  · simp [isNumberByte, hdigits b hb]

def numberItem (ops : Numbers D) (z : ℤ) : CJson D :=
  { newItem ops .number with
    valuedouble := ops.strtod (decimal z), valueint := ops.valueint (ops.strtod (decimal z)) }

theorem parseNumber_decimal {z : ℤ} (hz : (decimal z).length < 63) {b : UInt8} {rest : Bytes}
    (hb : ¬isNumberByte b) :
    parseNumber ops (decimal z ++ b :: rest) = some (numberItem ops z, b :: rest) := by
  obtain ⟨k, hk⟩ : ∃ k, 63 - (decimal z).length = k + 1 := ⟨62 - (decimal z).length, by omega⟩
  have htext : ((decimal z ++ b :: rest).take 63).takeWhile isNumberByte = decimal z := by
    rw [List.take_append, List.take_of_length_le (by omega), hk, List.take_succ_cons,
      List.takeWhile_append_of_pos fun c hc ↦ numberByte_of_decimal hc]
    simp [hb]
  have hlength : strtodLength (decimal z) = (decimal z).length := by
    obtain ⟨sign, digits, heq, hsign, hne, hdigits⟩ := decimal_eq_sign_digits z
    rw [heq]
    exact strtodLength_sign_digits hsign hne hdigits
  have hne : (decimal z).length ≠ 0 := by
    obtain ⟨sign, digits, heq, -, hne, -⟩ := decimal_eq_sign_digits z
    simp [heq, hne]
  simp [parseNumber, htext, hlength, hne, numberItem]

end NumberTexts

section Values

theorem skipWhitespace_cons {b : UInt8} (hb : ¬b ≤ 32) (l : Bytes) :
    skipWhitespace (b :: l) = b :: l := by
  simp [skipWhitespace, hb]

theorem parseKinds_quote (array object : Reader UInt8 (CJson D)) (l : Bytes) :
    parseKinds ops array object (quote :: l) =
      (parseString (quote :: l)).map fun r ↦
        ({ newItem ops .string with valuestring := some r.1 }, r.2) := rfl

theorem parseKinds_brace (array object : Reader UInt8 (CJson D)) (l : Bytes) :
    parseKinds ops array object (123 :: l) = object (123 :: l) := rfl

theorem parseKinds_decimal (array object : Reader UInt8 (CJson D)) (z : ℤ) (l : Bytes) :
    parseKinds ops array object (decimal z ++ l) = parseNumber ops (decimal z ++ l) := by
  obtain ⟨b, tail, hz, hb⟩ : ∃ b tail, decimal z = b :: tail ∧ (b = 45 ∨ isDigit b) := by
    obtain ⟨sign, digits, heq, rfl | rfl, hne, hdigits⟩ := decimal_eq_sign_digits z
    · obtain ⟨b, tail, rfl⟩ := List.exists_cons_of_ne_nil hne
      exact ⟨b, tail, heq, Or.inr (hdigits b (by simp))⟩
    · exact ⟨45, digits, heq, Or.inl rfl⟩
  have hword (c : UInt8) (word : Bytes) (hc : ¬(c = 45 ∨ isDigit c)) :
      (c :: word).isPrefixOf (b :: (tail ++ l)) = false := by
    have hbc : (c == b) = false := by
      rw [beq_eq_false_iff_ne]
      rintro rfl
      exact hc hb
    rw [List.isPrefixOf_cons_cons, hbc, Bool.false_and]
  have hnull : (ascii "null").isPrefixOf (b :: (tail ++ l)) = false :=
    hword 110 [117, 108, 108] (by decide)
  have hfalse : (ascii "false").isPrefixOf (b :: (tail ++ l)) = false :=
    hword 102 [97, 108, 115, 101] (by decide)
  have htrue : (ascii "true").isPrefixOf (b :: (tail ++ l)) = false :=
    hword 116 [114, 117, 101] (by decide)
  have hquote : b ≠ quote := by
    rintro rfl
    revert hb
    decide
  simp [parseKinds, hz, hnull, hfalse, htrue, hquote, hb]

theorem not_space_of_numberByte {b : UInt8} (hb : isNumberByte b) : ¬b ≤ 32 := by
  intro hspace
  rcases of_decide_eq_true hb with hdigit | rfl | rfl | rfl | rfl | rfl
  · have hlow : 48 ≤ b := (of_decide_eq_true hdigit).1
    exact absurd (UInt8.le_trans hlow hspace) (by decide)
  all_goals exact absurd hspace (by decide)

theorem skipWhitespace_decimal (z : ℤ) (l : Bytes) :
    skipWhitespace (decimal z ++ l) = decimal z ++ l := by
  obtain ⟨b, tail, hz⟩ : ∃ b tail, decimal z = b :: tail := by
    obtain ⟨sign, digits, heq, -, hne, -⟩ := decimal_eq_sign_digits z
    exact List.exists_cons_of_ne_nil (by simp [heq, hne])
  have hb : isNumberByte b := numberByte_of_decimal (z := z) (by simp [hz])
  rw [hz, List.cons_append]
  exact skipWhitespace_cons (not_space_of_numberByte hb) _

theorem parseValue_eq_parseKinds (ops : Numbers D) (depthLeft : ℕ) :
    ∃ array object, parseValue ops depthLeft = parseKinds ops array object := by
  cases depthLeft with
  | zero => exact ⟨_, _, rfl⟩
  | succ d => exact ⟨_, _, rfl⟩

def textMember (ops : Numbers D) (name text : Bytes) : CJson D :=
  { newItem ops .string with valuestring := some text, string := some name }

def numberMember (ops : Numbers D) (name : Bytes) (z : ℤ) : CJson D :=
  { numberItem ops z with string := some name }

variable {name : Bytes} (hname : unbroken name) (hplain : unquoted name = some name)
include hname hplain

theorem parseMember_name (value : Reader UInt8 (CJson D)) {l : Bytes}
    (hl : skipWhitespace l = l) :
    parseMember value (quote :: (name ++ quote :: colon :: l)) =
      (value l).map fun r ↦ ({ r.1 with string := some name }, r.2) := by
  rw [parseMember, parseString_unbroken hname, hplain]
  simp [skipWhitespace_cons (b := colon) (by decide), hl]

theorem parseMember_text (depthLeft : ℕ) {text : Bytes} (htext : unbroken text) (rest : Bytes) :
    parseMember (parseValue ops depthLeft)
        (quote :: (name ++ quote :: colon :: quote :: (text ++ quote :: rest))) =
      (unquoted text).map fun s ↦ (textMember ops name s, rest) := by
  obtain ⟨array, object, hvalue⟩ := parseValue_eq_parseKinds ops depthLeft
  rw [parseMember_name hname hplain _ (skipWhitespace_cons (by decide) _), hvalue,
    parseKinds_quote, parseString_unbroken htext]
  cases unquoted text with
  | none => rfl
  | some s => rfl

theorem parseMember_decimal (depthLeft : ℕ) {z : ℤ} (hz : (decimal z).length < 63) {b : UInt8}
    (hb : ¬isNumberByte b) (rest : Bytes) :
    parseMember (parseValue ops depthLeft)
        (quote :: (name ++ quote :: colon :: (decimal z ++ b :: rest))) =
      some (numberMember ops name z, b :: rest) := by
  obtain ⟨array, object, hvalue⟩ := parseValue_eq_parseKinds ops depthLeft
  rw [parseMember_name hname hplain _ (skipWhitespace_decimal _ _), hvalue, parseKinds_decimal,
    parseNumber_decimal hz hb]
  rfl

end Values

section Documents

theorem parse_eq_separated {value l : Bytes} (h : value ++ [0] = 123 :: quote :: l) :
    parse ops value =
      (Reader.separated comma 125 skipWhitespace (parseMember (parseValue ops 999))
        (l.length + 2) (quote :: l)).map fun r ↦ { newItem ops .object with child := r.1 } := by
  have hbom : skipUtf8Bom (123 :: quote :: l) = 123 :: quote :: l := by
    simp [skipUtf8Bom, List.isPrefixOf]
  have hdepth : nestingLimit = 999 + 1 := rfl
  have hobject : parseItems 125 (parseMember (parseValue ops 999)) (quote :: l) =
      Reader.separated comma 125 skipWhitespace (parseMember (parseValue ops 999))
        (l.length + 2) (quote :: l) := by
    have hne : quote ≠ 125 := by decide
    simp [parseItems, skipWhitespace_cons (b := quote) (by decide), hne]
  rw [parse, h, hbom, skipWhitespace_cons (by decide), hdepth, parseValue, parseKinds_brace,
    parseObject, List.tail_cons, hobject, Option.map_map]
  rfl

end Documents

end CJson
