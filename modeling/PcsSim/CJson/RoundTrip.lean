import PcsSim.CJson.Plain
import PcsSim.CJson.Print

/-!
# Printing and parsing

`cJSON_Parse` reads back what `cJSON_Print` and `cJSON_PrintUnformatted` write:
the same tree with the same texts, and the numbers that their digits stand for.
Numbers that are not finite come back as null.
-/

namespace CJson

variable {D : Type} {ops : Printing D}

/-- `printf` writes numerals. -/
structure FollowsPrintf (ops : Printing D) : Prop where
  numeral : ∀ d, ops.isFinite d → ∀ p, p = 15 ∨ p = 17 → ∃ n : Numeral, ops.format p d = n.text

section Reread

/-- What is read back of a number. -/
def rereadNumber (ops : Printing D) (d : D) : CJson D :=
  if ops.isFinite d then
    { newItem ops.toNumbers .number with
      valuedouble := ops.strtod (numberText ops d),
      valueint := ops.valueint (ops.strtod (numberText ops d)) }
  else newItem ops.toNumbers .null

mutual

/-- The item that is read back, unless it is raw. -/
def reread (ops : Printing D) : CJson D → CJson D
  | ⟨.null, _, _, _, _, _⟩ => newItem ops.toNumbers .null
  | ⟨.false_, _, _, _, _, _⟩ => newItem ops.toNumbers .false_
  | ⟨.true_, _, _, _, _, _⟩ => { newItem ops.toNumbers .true_ with valueint := 1 }
  | ⟨.number, _, _, valuedouble, _, _⟩ => rereadNumber ops valuedouble
  | ⟨.string, valuestring, _, _, _, _⟩ =>
    { newItem ops.toNumbers .string with valuestring := some (valuestring.getD []) }
  | ⟨.array, _, _, _, _, child⟩ =>
    { newItem ops.toNumbers .array with child := rereadElements ops child }
  | ⟨.object, _, _, _, _, child⟩ =>
    { newItem ops.toNumbers .object with child := rereadMembers ops child }
  | ⟨.raw, _, _, _, _, _⟩ | ⟨.invalid, _, _, _, _, _⟩ => newItem ops.toNumbers .invalid

def rereadElements (ops : Printing D) : List (CJson D) → List (CJson D)
  | [] => []
  | item :: rest => reread ops item :: rereadElements ops rest

def rereadMembers (ops : Printing D) : List (CJson D) → List (CJson D)
  | [] => []
  | item :: rest =>
    { reread ops item with string := some (item.string.getD []) } :: rereadMembers ops rest

end

end Reread

section Strings

variable {text : Bytes}

theorem unbroken_plain_cons {b : UInt8} (hquote : b ≠ quote) (hslash : b ≠ backslash) (l : Bytes) :
    unbroken (b :: l) = unbroken l := by
  rw [← List.singleton_append]
  apply unbroken_append
  simp [hquote, hslash]

theorem parseHex4_hex4 {b : UInt8} (hb : b < 32) (l : Bytes) :
    parseHex4 (hex4 b ++ l) = b.toNat := by
  have hall : ∀ n < 32, parseHex4 (hex4 n.toUInt8) = n := by decide
  have hn : b.toNat < 32 := UInt8.lt_iff_toNat_lt.mp hb
  have htake : (hex4 b ++ l).take 4 = (hex4 b).take 4 := rfl
  have hsame : parseHex4 (hex4 b ++ l) = parseHex4 (hex4 b) := by
    rw [parseHex4, parseHex4, htake]
  have hbyte : b.toNat.toUInt8 = b := UInt8.ofNat_toNat
  rw [hsame]
  have h := hall b.toNat hn
  rwa [hbyte] at h

theorem plain_hex4 {b : UInt8} (hb : b < 32) : plain (hex4 b) := by
  have hall : ∀ n < 32, plain (hex4 n.toUInt8) = true := by decide
  have hn : b.toNat < 32 := UInt8.lt_iff_toNat_lt.mp hb
  have hbyte : b.toNat.toUInt8 = b := UInt8.ofNat_toNat
  have h := hall b.toNat hn
  rwa [hbyte] at h

theorem unbroken_escape (input : Bytes) : unbroken (escape input) := by
  induction input with
  | nil => rfl
  | cons b input ih =>
      rw [escape_cons]
      rcases escape_cases b with ⟨hone, -, hquote, hslash⟩ | ⟨c, -, hone, -⟩ | ⟨hlow, hone, -⟩
      · rw [hone, List.singleton_append, unbroken_plain_cons hquote hslash]
        exact ih
      · rw [hone]
        exact ih
      · rw [hone]
        change unbroken (hex4 b ++ escape input) = true
        rw [unbroken_append (plain_hex4 hlow)]
        exact ih

theorem unescapeOne_short {b c : UInt8} (h : (b, c) ∈ shortEscapes) (l : Bytes) :
    unescapeOne (backslash :: c :: l) = some ([b], 2) := by
  simp only [shortEscapes, List.mem_cons, List.not_mem_nil, or_false, Prod.mk.injEq] at h
  rcases h with ⟨rfl, rfl⟩ | ⟨rfl, rfl⟩ | ⟨rfl, rfl⟩ | ⟨rfl, rfl⟩ | ⟨rfl, rfl⟩ | ⟨rfl, rfl⟩ |
    ⟨rfl, rfl⟩ <;> rfl

theorem codepointToUtf8_control {b : UInt8} (hb : b < 32) : codepointToUtf8 b.toNat = some [b] := by
  have hall : ∀ n < 32, codepointToUtf8 n = some [n.toUInt8] := by decide
  have hn : b.toNat < 32 := UInt8.lt_iff_toNat_lt.mp hb
  have hbyte : b.toNat.toUInt8 = b := UInt8.ofNat_toNat
  rw [hall b.toNat hn, hbyte]

theorem unescapeOne_control {b : UInt8} (hb : b < 32) {l : Bytes} (hl : l ≠ []) :
    unescapeOne (backslash :: 117 :: (hex4 b ++ l)) = some ([b], 6) := by
  have hlength : ¬(backslash :: 117 :: (hex4 b ++ l)).length - 1 < 6 := by
    have hpos : 0 < l.length := List.length_pos_iff.mpr hl
    have hfour : (hex4 b).length = 4 := rfl
    rw [List.length_cons, List.length_cons, List.length_append, hfour]
    omega
  have hn : b.toNat < 32 := UInt8.lt_iff_toNat_lt.mp hb
  have hfirst : parseHex4 ((backslash :: 117 :: (hex4 b ++ l)).drop 2) = b.toNat :=
    parseHex4_hex4 hb l
  change utf16LiteralToUtf8 (backslash :: 117 :: (hex4 b ++ l)) = some ([b], 6)
  rw [utf16LiteralToUtf8]
  simp only [if_neg hlength, hfirst]
  rw [if_neg (by omega), if_neg (by omega), codepointToUtf8_control hb]
  rfl

theorem unescape_skip (skipped : Bytes) {l : Bytes} (hl : l ≠ []) :
    unescape skipped.length (skipped ++ l) = unescape 0 l := by
  induction skipped with
  | nil => rfl
  | cons b skipped ih =>
      obtain ⟨c, rest, hrest⟩ := List.exists_cons_of_ne_nil
        (List.append_ne_nil_of_right_ne_nil skipped hl)
      rw [hrest] at ih
      rw [List.cons_append, hrest, List.length_cons, unescape]
      · exact ih
      · exact List.cons_ne_nil c rest

theorem unescape_escaped {c : UInt8} {l out : Bytes} {length : ℕ}
    (h : unescapeOne (backslash :: c :: l) = some (out, length)) :
    unescape 0 (backslash :: c :: l) = (unescape (length - 1) (c :: l)).map (out ++ ·) := by
  simp [unescape, h]

theorem unescape_escape (input : Bytes) : unescape 0 (escape input ++ [quote]) = some input := by
  induction input with
  | nil => rfl
  | cons b input ih =>
      have hne : escape input ++ [quote] ≠ [] :=
        List.append_ne_nil_of_right_ne_nil _ (List.cons_ne_nil _ _)
      rw [escape_cons, List.append_assoc]
      rcases escape_cases b with ⟨hone, -, -, hslash⟩ | ⟨c, hc, hone, -⟩ | ⟨hlow, hone, -⟩
      · obtain ⟨c, l, hl⟩ := List.exists_cons_of_ne_nil hne
        rw [hl] at ih
        rw [hone, List.singleton_append, hl, unescape_cons hslash, ih]
        rfl
      · have hskip : unescape 1 (c :: (escape input ++ [quote])) =
            unescape 0 (escape input ++ [quote]) :=
          unescape_skip [c] hne
        rw [hone]
        change unescape 0 (backslash :: c :: (escape input ++ [quote])) = some (b :: input)
        rw [unescape_escaped (unescapeOne_short hc _), hskip, ih]
        rfl
      · have hskip : unescape 5 (117 :: (hex4 b ++ (escape input ++ [quote]))) =
            unescape 0 (escape input ++ [quote]) :=
          unescape_skip (117 :: hex4 b) hne
        rw [hone]
        change unescape 0 (backslash :: 117 :: (hex4 b ++ (escape input ++ [quote]))) =
          some (b :: input)
        rw [unescape_escaped (unescapeOne_control hlow hne), hskip, ih]
        rfl

theorem unquoted_escape {input : Bytes} (h : 0 ∉ input) : unquoted (escape input) = some input := by
  have hwhole : input.takeWhile (· ≠ 0) = input := by
    apply List.takeWhile_eq_self_iff.mpr
    intro b hb
    have hne : b ≠ 0 := ne_of_mem_of_not_mem hb h
    simpa using hne
  rw [unquoted, unescape_escape, Option.map_some, hwhole]

theorem parseString_printed {input : Option Bytes} (h : 0 ∉ input.getD []) (rest : Bytes) :
    parseString (printedString input ++ rest) = some (input.getD [], rest) := by
  have hshape : printedString input ++ rest =
      quote :: (escape (input.getD []) ++ quote :: rest) := by
    rw [printedString, List.cons_append, List.append_assoc, List.singleton_append]
  rw [hshape, parseString_unbroken (unbroken_escape _), unquoted_escape h]
  rfl

end Strings

section Scalars

/-- What may follow a number. -/
def Closes (rest : Bytes) : Prop := ∃ b l, rest = b :: l ∧ ¬isNumberByte b

theorem parseNumber_text {n : Numeral} (hshort : n.text.length < 63) {rest : Bytes}
    (hrest : Closes rest) :
    parseNumber ops.toNumbers (n.text ++ rest) =
      some ({ newItem ops.toNumbers .number with
        valuedouble := ops.strtod n.text,
        valueint := ops.valueint (ops.strtod n.text) }, rest) := by
  obtain ⟨b, l, rfl, hb⟩ := hrest
  obtain ⟨k, hk⟩ : ∃ k, 63 - n.text.length = k + 1 := ⟨62 - n.text.length, by omega⟩
  have htext : ((n.text ++ b :: l).take 63).takeWhile isNumberByte = n.text := by
    rw [List.take_append, List.take_of_length_le hshort.le, hk, List.take_succ_cons,
      List.takeWhile_append_of_pos fun c hc ↦ numberByte_of_mem_text hc,
      List.takeWhile_cons_of_neg hb, List.append_nil]
  obtain ⟨c, tail, hcons, -⟩ := exists_text_eq_cons n
  have hne : n.text.length ≠ 0 := by
    rw [hcons]
    exact Nat.succ_ne_zero _
  rw [parseNumber]
  simp only [htext, strtodLength_text, if_neg hne, List.take_length, List.drop_left]

theorem isPrefixOf_of_ne {b c : UInt8} (hne : c ≠ b) (word l : Bytes) :
    (c :: word).isPrefixOf (b :: l) = false := by
  rw [List.isPrefixOf_cons_cons, beq_eq_false_iff_ne.mpr hne, Bool.false_and]

theorem parseKinds_number {array object : Reader UInt8 (CJson D)} {b : UInt8}
    (hb : b = 45 ∨ isDigit b) (l : Bytes) :
    parseKinds ops.toNumbers array object (b :: l) = parseNumber ops.toNumbers (b :: l) := by
  have hne : ∀ c, ¬(c = 45 ∨ isDigit c) → c ≠ b := by
    rintro c hc rfl
    exact hc hb
  have hnull : (ascii "null").isPrefixOf (b :: l) = false :=
    isPrefixOf_of_ne (hne 110 (by decide)) [117, 108, 108] l
  have hfalse : (ascii "false").isPrefixOf (b :: l) = false :=
    isPrefixOf_of_ne (hne 102 (by decide)) [97, 108, 115, 101] l
  have htrue : (ascii "true").isPrefixOf (b :: l) = false :=
    isPrefixOf_of_ne (hne 116 (by decide)) [114, 117, 101] l
  have hquote : b ≠ quote := (hne quote (by decide)).symm
  simp [parseKinds, hnull, hfalse, htrue, hquote, hb]

theorem exists_numeral (hops : FollowsPrintf ops) {d : D} (hd : ops.isFinite d) :
    ∃ n : Numeral, numberText ops d = n.text := by
  rw [numberText, if_pos hd]
  split
  · exact hops.numeral d hd 17 (.inr rfl)
  · split_ifs
    · exact hops.numeral d hd 15 (.inl rfl)
    · exact hops.numeral d hd 17 (.inr rfl)

theorem parseKinds_numberText (hops : FollowsPrintf ops) {array object : Reader UInt8 (CJson D)}
    {d : D} (hshort : (numberText ops d).length < 26) {rest : Bytes} (hrest : Closes rest) :
    parseKinds ops.toNumbers array object (numberText ops d ++ rest) =
      some (rereadNumber ops d, rest) := by
  rw [rereadNumber]
  split_ifs with hd
  · obtain ⟨n, hn⟩ := exists_numeral hops hd
    obtain ⟨b, tail, hcons, hb⟩ := exists_text_eq_cons n
    rw [hn] at hshort
    have hkinds : parseKinds ops.toNumbers array object (n.text ++ rest) =
        parseNumber ops.toNumbers (n.text ++ rest) := by
      rw [hcons, List.cons_append]
      exact parseKinds_number hb _
    rw [hn, hkinds, parseNumber_text (by omega) hrest]
  · rw [numberText, if_neg hd]
    rfl

end Scalars

section Blanks

theorem skipWhitespace_blanks {blanks : Bytes} (hblanks : ∀ b ∈ blanks, b ≤ 32) {b : UInt8}
    (hb : ¬b ≤ 32) (l : Bytes) : skipWhitespace (blanks ++ b :: l) = b :: l := by
  have hdrop : (blanks ++ b :: l).dropWhile (· ≤ 32) = b :: l := by
    rw [List.dropWhile_append_of_pos fun c hc ↦ decide_eq_true (hblanks c hc),
      List.dropWhile_cons_of_neg (by simpa using hb)]
  rw [skipWhitespace, hdrop]

/-- The first byte of a value is no blank and closes nothing. -/
def Opens (text : Bytes) : Prop :=
  ∃ b l, text = b :: l ∧ ¬b ≤ 32 ∧ b ≠ 93 ∧ b ≠ 125 ∧ b ≠ 0xEF

theorem Opens.append {text : Bytes} (h : Opens text) (rest : Bytes) : Opens (text ++ rest) := by
  obtain ⟨b, l, rfl, hb⟩ := h
  exact ⟨b, l ++ rest, rfl, hb⟩

theorem Opens.skip {text blanks : Bytes} (h : Opens text) (hblanks : ∀ b ∈ blanks, b ≤ 32) :
    skipWhitespace (blanks ++ text) = text := by
  obtain ⟨b, l, rfl, hb, -⟩ := h
  exact skipWhitespace_blanks hblanks hb l

theorem Opens.skip_self {text : Bytes} (h : Opens text) : skipWhitespace text = text :=
  @Opens.skip text [] h fun _ hb ↦ nomatch hb

theorem opens_printedString (input : Option Bytes) : Opens (printedString input) :=
  ⟨quote, _, rfl, by decide⟩

theorem opens_numberText (hops : FollowsPrintf ops) (d : D) : Opens (numberText ops d) := by
  by_cases hd : ops.isFinite d
  · obtain ⟨n, hn⟩ := exists_numeral hops hd
    obtain ⟨b, tail, hcons, hb⟩ := exists_text_eq_cons n
    have hnumber : isNumberByte b := numberByte_of_mem_text (n := n) (by simp [hcons])
    refine ⟨b, tail, hn.trans hcons, not_space_of_numberByte hnumber, ?_⟩
    refine ⟨?_, ?_, ?_⟩
    all_goals
      rintro rfl
      exact absurd hb (by decide)
  · rw [numberText, if_neg hd]
    exact ⟨110, _, rfl, by decide⟩

/-- The text of a raw item can be anything. -/
structure Ordinary (x : CJson D) : Prop where
  valid : x.type ≠ .invalid
  raw : x.type ≠ .raw

theorem opens_printed (hops : FollowsPrintf ops) (format : Bool) {x : CJson D} (hx : Ordinary x)
    (depth : ℕ) : Opens (printed ops format x depth) := by
  obtain ⟨hvalid, hraw⟩ := hx
  obtain ⟨type, valuestring, valueint, valuedouble, string, child⟩ := x
  cases type with
  | null => exact ⟨110, _, rfl, by decide⟩
  | false_ => exact ⟨102, _, rfl, by decide⟩
  | true_ => exact ⟨116, _, rfl, by decide⟩
  | number => exact opens_numberText hops valuedouble
  | string => exact opens_printedString valuestring
  | array => exact ⟨91, _, rfl, by decide⟩
  | object =>
      rw [printed]
      apply Opens.append
      cases format with
      | true => exact ⟨123, _, rfl, by decide⟩
      | false => exact ⟨123, _, rfl, by decide⟩
  | raw => exact absurd rfl hraw
  | invalid => exact absurd rfl hvalid

theorem tabs_le (format : Bool) (depth : ℕ) : ∀ b ∈ tabs format depth, b ≤ 32 := by
  intro b hb
  rw [tabs] at hb
  split_ifs at hb
  · rw [List.eq_of_mem_replicate hb]
    decide
  · cases hb

end Blanks

section Lists

variable {format : Bool} {depth : ℕ} {value : Reader UInt8 (CJson D)}

/-- Blanks before the first item are skipped. -/
theorem separated_blanks {close : UInt8} {item : Reader UInt8 (CJson D)} {blanks text : Bytes}
    (htext : Opens text) (hblanks : ∀ b ∈ blanks, b ≤ 32) (n : ℕ) :
    Reader.separated comma close skipWhitespace item n (blanks ++ text) =
      Reader.separated comma close skipWhitespace item n text := by
  have hskip := htext.skip hblanks
  cases n with
  | zero => rfl
  | succ n => rw [Reader.separated, Reader.separated, hskip, htext.skip_self]

theorem separator_eq (format : Bool) :
    ∃ blanks, separator format = comma :: blanks ∧ ∀ b ∈ blanks, b ≤ 32 := by
  cases format with
  | true => exact ⟨[32], rfl, List.forall_mem_singleton.mpr (by decide)⟩
  | false => exact ⟨[], rfl, List.forall_mem_nil _⟩

theorem opens_printedElements (hops : FollowsPrintf ops) (format : Bool) (depth : ℕ)
    {items : List (CJson D)} (hitems : ∀ x ∈ items, Ordinary x) (hne : items ≠ []) :
    Opens (printedElements ops format items depth) := by
  obtain ⟨x, rest, rfl⟩ := List.exists_cons_of_ne_nil hne
  rw [printedElements]
  exact (opens_printed hops format (hitems x List.mem_cons_self) depth).append _

/-- The reader reads the item back from its text, whatever follows it. -/
structure ReadsItem (ops : Printing D) (value : Reader UInt8 (CJson D)) (format : Bool) (depth : ℕ)
    (x : CJson D) : Prop where
  ordinary : Ordinary x
  reads : ∀ rest, Closes rest →
    value (printed ops format x depth ++ rest) = some (reread ops x, rest)

theorem separated_elements (hops : FollowsPrintf ops) {items : List (CJson D)} (hne : items ≠ [])
    (hitems : ∀ x ∈ items, ReadsItem ops value format depth x)
    (rest : Bytes) {n : ℕ} (hn : items.length ≤ n) :
    Reader.separated comma 93 skipWhitespace value n
        (printedElements ops format items depth ++ 93 :: rest) =
      some (rereadElements ops items, rest) := by
  induction items generalizing n with
  | nil => exact absurd rfl hne
  | cons x items ih =>
      rw [List.length_cons] at hn
      obtain ⟨m, rfl⟩ : ∃ m, n = m + 1 := Nat.exists_eq_succ_of_ne_zero (by omega)
      have hx := hitems x List.mem_cons_self
      have hopens := opens_printed hops format hx.ordinary depth
      by_cases hlast : items = []
      · subst hlast
        rw [printedElements, if_pos rfl, List.append_nil]
        have hvalue := hx.reads (93 :: rest) ⟨93, rest, rfl, by decide⟩
        rw [← (hopens.append _).skip_self] at hvalue
        exact Reader.separated_close hvalue (skipWhitespace_cons (by decide) rest) (by decide) m
      · obtain ⟨blanks, hseparator, hblanks⟩ := separator_eq format
        have hshape : printedElements ops format (x :: items) depth ++ 93 :: rest =
            printed ops format x depth ++ comma :: (blanks ++
              (printedElements ops format items depth ++ 93 :: rest)) := by
          rw [printedElements, if_neg hlast, hseparator]
          simp only [List.append_assoc, List.cons_append]
        have hrest := (opens_printedElements hops format depth
          (fun y hy ↦ (hitems y (List.mem_cons_of_mem x hy)).ordinary) hlast).append (93 :: rest)
        have hvalue := hx.reads (comma :: (blanks ++
          (printedElements ops format items depth ++ 93 :: rest))) ⟨comma, _, rfl, by decide⟩
        rw [← (hopens.append _).skip_self] at hvalue
        rw [hshape, Reader.separated_sep hvalue (skipWhitespace_cons (by decide) _),
          separated_blanks hrest hblanks,
          ih hlast (fun y hy ↦ hitems y (List.mem_cons_of_mem x hy)) (by omega)]
        rfl

theorem Opens.length_pos {text : Bytes} (h : Opens text) : 0 < text.length := by
  obtain ⟨b, l, rfl, -⟩ := h
  exact Nat.succ_pos _

theorem length_le_printedElements (hops : FollowsPrintf ops) (format : Bool)
    {items : List (CJson D)} (hitems : ∀ x ∈ items, Ordinary x) (depth : ℕ) :
    items.length ≤ (printedElements ops format items depth).length := by
  induction items with
  | nil => exact Nat.zero_le _
  | cons x items ih =>
      have hpos := (opens_printed hops format (hitems x List.mem_cons_self) depth).length_pos
      have hrest := ih fun y hy ↦ hitems y (List.mem_cons_of_mem x hy)
      rw [printedElements, List.length_append, List.length_cons]
      by_cases hlast : items = []
      · subst hlast
        rw [if_pos rfl, List.length_nil]
        omega
      · rw [if_neg hlast, List.length_append]
        omega

theorem parseItems_of_opens {close : UInt8} {item : Reader UInt8 (CJson D)}
    {blanks text rest : Bytes} {items : List (CJson D)} {b : UInt8} {l : Bytes}
    (htext : text = b :: l) (hb : ¬b ≤ 32) (hclose : b ≠ close)
    (hblanks : ∀ c ∈ blanks, c ≤ 32)
    (hitems : ∀ n, l.length ≤ n →
      Reader.separated comma close skipWhitespace item (n + 2) text = some (items, rest)) :
    parseItems close item (blanks ++ text) = some (items, rest) := by
  rw [htext] at hitems ⊢
  rw [parseItems, skipWhitespace_blanks hblanks hb]
  simp only [if_neg hclose]
  exact hitems l.length le_rfl

theorem parseItems_elements (hops : FollowsPrintf ops) {items : List (CJson D)}
    (hitems : ∀ x ∈ items, ReadsItem ops value format depth x) (rest : Bytes) :
    parseItems 93 value (printedElements ops format items depth ++ 93 :: rest) =
      some (rereadElements ops items, rest) := by
  by_cases hne : items = []
  · subst hne
    rw [printedElements, List.nil_append, parseItems, skipWhitespace_cons (by decide)]
    rfl
  · have hordinary : ∀ x ∈ items, Ordinary x := fun x hx ↦ (hitems x hx).ordinary
    have hlength := length_le_printedElements hops format hordinary depth
    obtain ⟨b, l, htext, hb, hclose, -⟩ :=
      (opens_printedElements hops format depth hordinary hne).append (93 :: rest)
    rw [← List.nil_append (printedElements ops format items depth ++ 93 :: rest)]
    apply parseItems_of_opens htext hb hclose (List.forall_mem_nil _)
    intro n hn
    apply separated_elements hops hne hitems rest
    have hcount := congrArg List.length htext
    rw [List.length_append, List.length_cons, List.length_cons] at hcount
    omega

theorem colons_eq (format : Bool) :
    ∃ blanks, colons format = colon :: blanks ∧ ∀ b ∈ blanks, b ≤ 32 := by
  cases format with
  | true => exact ⟨[9], rfl, List.forall_mem_singleton.mpr (by decide)⟩
  | false => exact ⟨[], rfl, List.forall_mem_nil _⟩

theorem parseMember_printed (format : Bool) {name : Option Bytes} (hname : 0 ∉ name.getD [])
    {text tail : Bytes} (htext : Opens text) {y : CJson D}
    (hvalue : value (text ++ tail) = some (y, tail)) :
    parseMember value (printedString name ++ (colons format ++ (text ++ tail))) =
      some ({ y with string := some (name.getD []) }, tail) := by
  obtain ⟨blanks, hcolons, hblanks⟩ := colons_eq format
  have skipColon : ∀ l, skipWhitespace (colon :: l) = colon :: l :=
    skipWhitespace_cons (by decide)
  rw [parseMember, parseString_printed hname, hcolons, List.cons_append]
  simp only [skipColon, ne_eq, not_true_eq_false, if_false,
    (htext.append tail).skip hblanks, hvalue, Option.map_some]

theorem closes_blanks {blanks : Bytes} (hblanks : ∀ b ∈ blanks, b ≤ 32) {b : UInt8}
    (hb : ¬isNumberByte b) (l : Bytes) : Closes (blanks ++ b :: l) := by
  cases blanks with
  | nil => exact ⟨b, l, rfl, hb⟩
  | cons c blanks =>
      refine ⟨c, blanks ++ b :: l, rfl, fun hc ↦ ?_⟩
      exact not_space_of_numberByte hc (hblanks c List.mem_cons_self)

/-- The line break of a formatted object. -/
def lineBreak (format : Bool) : Bytes := if format then [10] else []

theorem lineBreak_le (format : Bool) : ∀ b ∈ lineBreak format, b ≤ 32 := by
  cases format with
  | true => exact List.forall_mem_singleton.mpr (by decide)
  | false => exact List.forall_mem_nil _

theorem ending_nil (format : Bool) : ending format ([] : List (CJson D)) = lineBreak format := rfl

theorem ending_of_ne {items : List (CJson D)} (hne : items ≠ []) (format : Bool) :
    ending format items = comma :: lineBreak format := by
  rw [ending, if_neg hne]
  rfl

theorem append_le {blanks blanks' : Bytes} (h : ∀ b ∈ blanks, b ≤ 32)
    (h' : ∀ b ∈ blanks', b ≤ 32) : ∀ b ∈ blanks ++ blanks', b ≤ 32 := by
  intro b hb
  exact (List.mem_append.mp hb).elim (h b) (h' b)

/-- Blanks before the members are skipped like the tabs that they begin with. -/
theorem separated_members_blanks (x : CJson D) (items : List (CJson D)) {blanks : Bytes}
    (hblanks : ∀ b ∈ blanks, b ≤ 32) {item : Reader UInt8 (CJson D)} (rest : Bytes) (n : ℕ) :
    Reader.separated comma 125 skipWhitespace item n
        (blanks ++ (printedMembers ops format (x :: items) depth ++ rest)) =
      Reader.separated comma 125 skipWhitespace item n
        (printedMembers ops format (x :: items) depth ++ rest) := by
  have hopens := (opens_printedString x.string).append
    (colons format ++ (printed ops format x depth ++ (ending format items ++
      printedMembers ops format items depth)) ++ rest)
  rw [printedMembers, List.append_assoc, List.append_assoc, ← List.append_assoc blanks,
    separated_blanks hopens (append_le hblanks (tabs_le format depth)),
    separated_blanks hopens (tabs_le format depth)]

theorem parseMember_member (hops : FollowsPrintf ops) {x : CJson D}
    (hx : 0 ∉ x.string.getD [] ∧ ReadsItem ops value format depth x) {rest : Bytes}
    (hrest : Closes rest) :
    parseMember value (skipWhitespace (printedString x.string ++ (colons format ++
        (printed ops format x depth ++ rest)))) =
      some ({ reread ops x with string := some (x.string.getD []) }, rest) := by
  obtain ⟨hname, hordinary, hreads⟩ := hx
  rw [((opens_printedString _).append _).skip_self]
  exact parseMember_printed format hname (opens_printed hops format hordinary depth)
    (hreads rest hrest)

/-- The members of an object, the last of them before blanks and the brace. -/
theorem separated_members (hops : FollowsPrintf ops) {x : CJson D} {items : List (CJson D)}
    (hitems : ∀ y ∈ x :: items, 0 ∉ y.string.getD [] ∧ ReadsItem ops value format depth y)
    {blanks : Bytes} (hblanks : ∀ b ∈ blanks, b ≤ 32) (rest : Bytes) {n : ℕ}
    (hn : items.length < n) :
    Reader.separated comma 125 skipWhitespace (parseMember value) n
        (printedMembers ops format (x :: items) depth ++ (blanks ++ 125 :: rest)) =
      some (rereadMembers ops (x :: items), rest) := by
  induction items generalizing x n with
  | nil =>
      obtain ⟨m, rfl⟩ : ∃ m, n = m + 1 := Nat.exists_eq_succ_of_ne_zero (by omega)
      have hclose : ¬isNumberByte 125 := by decide
      have hend := append_le (lineBreak_le format) hblanks
      have hshape : printedMembers ops format [x] depth ++ (blanks ++ 125 :: rest) =
          tabs format depth ++ (printedString x.string ++ (colons format ++
            (printed ops format x depth ++ (lineBreak format ++ blanks ++ 125 :: rest)))) := by
        simp only [printedMembers, ending_nil, List.append_assoc, List.append_nil]
      rw [hshape, separated_blanks ((opens_printedString _).append _) (tabs_le format depth)]
      have hmember := parseMember_member hops (hitems x List.mem_cons_self)
        (closes_blanks hend hclose rest)
      exact Reader.separated_close hmember (skipWhitespace_blanks hend (by decide) rest)
        (by decide) m
  | cons y items ih =>
      rw [List.length_cons] at hn
      obtain ⟨m, rfl⟩ : ∃ m, n = m + 1 := Nat.exists_eq_succ_of_ne_zero (by omega)
      have hshape : printedMembers ops format (x :: y :: items) depth ++ (blanks ++ 125 :: rest) =
          tabs format depth ++ (printedString x.string ++ (colons format ++
            (printed ops format x depth ++ (comma :: (lineBreak format ++
              (printedMembers ops format (y :: items) depth ++ (blanks ++ 125 :: rest))))))) := by
        rw [printedMembers, ending_of_ne (List.cons_ne_nil y items)]
        simp only [List.append_assoc, List.cons_append]
      have hmember := parseMember_member hops (hitems x List.mem_cons_self)
        ⟨comma, lineBreak format ++ (printedMembers ops format (y :: items) depth ++
          (blanks ++ 125 :: rest)), rfl, by decide⟩
      rw [hshape, separated_blanks ((opens_printedString _).append _) (tabs_le format depth),
        Reader.separated_sep hmember (skipWhitespace_cons (by decide) _),
        separated_members_blanks y items (lineBreak_le format),
        ih (fun z hz ↦ hitems z (List.mem_cons_of_mem x hz)) (by omega)]
      rfl

theorem length_le_printedMembers (ops : Printing D) (format : Bool) (items : List (CJson D))
    (depth : ℕ) :
    items.length ≤ (printedMembers ops format items depth).length := by
  induction items with
  | nil => exact Nat.zero_le _
  | cons x items ih =>
      have hpos := (opens_printedString x.string).length_pos
      simp only [printedMembers, List.length_append, List.length_cons]
      omega

theorem parseItems_members (hops : FollowsPrintf ops) {items : List (CJson D)}
    (hitems : ∀ x ∈ items, 0 ∉ x.string.getD [] ∧ ReadsItem ops value format depth x)
    {blanks : Bytes} (hblanks : ∀ b ∈ blanks, b ≤ 32) (rest : Bytes) :
    parseItems 125 (parseMember value)
        (lineBreak format ++ (printedMembers ops format items depth ++ (blanks ++ 125 :: rest))) =
      some (rereadMembers ops items, rest) := by
  cases items with
  | nil =>
      rw [printedMembers, List.nil_append, ← List.append_assoc, parseItems,
        skipWhitespace_blanks (append_le (lineBreak_le format) hblanks) (by decide)]
      rfl
  | cons x items =>
      have hcount := length_le_printedMembers ops format items depth
      have hopens := (opens_printedString x.string).append
        (colons format ++ (printed ops format x depth ++ (ending format items ++
          printedMembers ops format items depth)) ++ (blanks ++ 125 :: rest))
      have hshape : printedMembers ops format (x :: items) depth ++ (blanks ++ 125 :: rest) =
          tabs format depth ++ (printedString x.string ++ (colons format ++
            (printed ops format x depth ++ (ending format items ++
              printedMembers ops format items depth)) ++ (blanks ++ 125 :: rest))) := by
        rw [printedMembers, List.append_assoc, List.append_assoc]
      obtain ⟨b, l, htext, hb, -, hclose, -⟩ := id hopens
      rw [hshape, ← List.append_assoc (lineBreak format)]
      apply parseItems_of_opens htext hb hclose (append_le (lineBreak_le format) (tabs_le format _))
      intro n hn
      have hlength := congrArg List.length htext
      simp only [List.length_append, List.length_cons] at hlength
      have hroom : items.length < n + 2 := by omega
      have hseparated := separated_members hops hitems hblanks rest hroom
      rw [hshape, separated_blanks hopens (tabs_le format depth)] at hseparated
      exact hseparated

end Lists

section Documents

variable {x : CJson D}

/-- No more than `n` arrays and objects lie in one another. -/
inductive Within : ℕ → CJson D → Prop
  | leaf {n : ℕ} {x : CJson D} (array : x.type ≠ .array) (object : x.type ≠ .object) : Within n x
  | nested {n : ℕ} {x : CJson D} (below : ∀ y ∈ x.child, Within n y) : Within (n + 1) x

/-- The texts of an item are C strings, and its number fits the array. -/
structure Printable (ops : Printing D) (x : CJson D) : Prop where
  number : ShortNumber ops x
  valuestring : 0 ∉ x.valuestring.getD []
  string : 0 ∉ x.string.getD []

/-- What is printed of the item can be read back. -/
structure Readable (ops : Printing D) (x : CJson D) : Prop extends Printable ops x where
  ordinary : Ordinary x

theorem parseKinds_leaf (hops : FollowsPrintf ops) (hx : Readable ops x)
    (harray : x.type ≠ .array) (hobject : x.type ≠ .object)
    (array object : Reader UInt8 (CJson D)) (format : Bool) (depth : ℕ) {rest : Bytes}
    (hrest : Closes rest) :
    parseKinds ops.toNumbers array object (printed ops format x depth ++ rest) =
      some (reread ops x, rest) := by
  obtain ⟨⟨hnumber, hvaluestring, -⟩, hvalid, hraw⟩ := hx
  obtain ⟨type, valuestring, valueint, valuedouble, string, child⟩ := x
  cases type with
  | null => rfl
  | false_ => rfl
  | true_ => rfl
  | number => exact parseKinds_numberText hops (hnumber rfl) hrest
  | string =>
      have hstring := parseString_printed hvaluestring rest
      have hquote : printedString valuestring ++ rest =
          quote :: (escape (valuestring.getD []) ++ [quote] ++ rest) := rfl
      rw [printed, hquote, parseKinds_quote, ← hquote, hstring]
      rfl
  | array => exact absurd rfl harray
  | object => exact absurd rfl hobject
  | raw => exact absurd rfl hraw
  | invalid => exact absurd rfl hvalid

theorem opening_eq (format : Bool) : opening format = 123 :: lineBreak format := by
  cases format <;> rfl

/-- A value is read back from its text, whatever follows it. -/
theorem parseValue_printed (hops : FollowsPrintf ops) (hx : Everywhere (Readable ops) x) {n : ℕ}
    (hn : Within n x) (format : Bool) (depth : ℕ) {rest : Bytes} (hrest : Closes rest) :
    parseValue ops.toNumbers n (printed ops format x depth ++ rest) =
      some (reread ops x, rest) := by
  induction hn generalizing depth rest with
  | @leaf n x harray hobject =>
      obtain ⟨array, object, hkinds⟩ := parseValue_eq_parseKinds ops.toNumbers n
      rw [hkinds]
      exact parseKinds_leaf hops hx.here harray hobject array object format depth hrest
  | @nested n x below ih =>
      have hchild : ∀ y ∈ x.child, 0 ∉ y.string.getD [] ∧
          ReadsItem ops (parseValue ops.toNumbers n) format (depth + 1) y := by
        intro y hy
        cases hx with
        | item _ hbelow =>
            have hy' := hbelow y hy
            exact ⟨hy'.here.string, hy'.here.ordinary, fun _ ↦ ih y hy hy' (depth + 1)⟩
      by_cases harray : x.type = .array
      · obtain ⟨type, valuestring, valueint, valuedouble, string, child⟩ := x
        obtain rfl : type = .array := harray
        have helements := parseItems_elements hops (fun y hy ↦ (hchild y hy).2) rest
        have hshape : printed ops format ⟨.array, valuestring, valueint, valuedouble, string,
            child⟩ depth ++ rest =
              91 :: (printedElements ops format child (depth + 1) ++ 93 :: rest) := by
          rw [printed, List.append_assoc, List.append_assoc]
          rfl
        rw [hshape]
        change parseArray ops.toNumbers (parseValue ops.toNumbers n) _ = _
        rw [parseArray, List.tail_cons, helements, reread]
        rfl
      by_cases hobject : x.type = .object
      · obtain ⟨type, valuestring, valueint, valuedouble, string, child⟩ := x
        obtain rfl : type = .object := hobject
        have hmembers := parseItems_members hops hchild (tabs_le format depth) rest
        have hshape : printed ops format ⟨.object, valuestring, valueint, valuedouble, string,
            child⟩ depth ++ rest =
              123 :: (lineBreak format ++ (printedMembers ops format child (depth + 1) ++
                (tabs format depth ++ 125 :: rest))) := by
          rw [printed, opening_eq]
          simp only [List.append_assoc, List.cons_append, List.nil_append]
        rw [hshape]
        change parseObject ops.toNumbers (parseValue ops.toNumbers n) _ = _
        rw [parseObject, List.tail_cons, hmembers, reread]
        rfl
      · exact parseKinds_leaf hops hx.here harray hobject _ _ format depth hrest

theorem Opens.skipUtf8Bom {text : Bytes} (h : Opens text) : skipUtf8Bom text = text := by
  obtain ⟨b, l, rfl, -, -, -, hb⟩ := h
  have hmark : [0xEF, 0xBB, 0xBF].isPrefixOf (b :: l) = false :=
    isPrefixOf_of_ne hb.symm [0xBB, 0xBF] l
  rw [CJson.skipUtf8Bom, hmark, if_neg (by simp)]

theorem parse_printed (hops : FollowsPrintf ops) (hx : Everywhere (Readable ops) x)
    (hdepth : Within nestingLimit x) (format : Bool) :
    parse ops.toNumbers (printed ops format x 0) = some (reread ops x) := by
  have hopens := (opens_printed hops format hx.here.ordinary 0).append [0]
  have hvalue := parseValue_printed hops hx hdepth format 0 ⟨0, [], rfl, by decide⟩
  rw [parse, hopens.skipUtf8Bom, hopens.skip_self, hvalue]
  rfl

theorem Everywhere.imp {P Q : CJson D → Prop} (h : Everywhere P x) (hPQ : ∀ y, P y → Q y) :
    Everywhere Q x := by
  induction h with
  | item here _ ih => exact .item (hPQ _ here) ih

theorem Everywhere.and {P Q : CJson D → Prop} (hP : Everywhere P x) (hQ : Everywhere Q x) :
    Everywhere (fun y ↦ P y ∧ Q y) x := by
  induction hP with
  | item here _ ih =>
      cases hQ with
      | item here' below' => exact .item ⟨here, here'⟩ fun y hy ↦ ih y hy (below' y hy)

theorem Everywhere.legible (h : Everywhere Ordinary x) : Legible x := by
  induction h with
  | item here _ ih =>
      exact .item ⟨here.valid, fun hraw ↦ absurd hraw here.raw⟩ fun _ y hy ↦ ih y hy

theorem print_of_readable (hx : Everywhere (Readable ops) x) (format : Bool) :
    print ops format x =
      if (printed ops format x 0).length + 2 ≤ maxSize then .ok (printed ops format x 0)
      else .error .refused :=
  print_eq (hx.imp fun _ h ↦ h.number) (hx.imp fun _ h ↦ h.ordinary).legible format

/-- Both printers give NULL exactly for an item of an unknown type, a raw item
without a text and a text that is too long for a buffer.  Any other text is
read back by `cJSON_Parse` if there are no raw items in it. -/
theorem print_round_trip (hops : FollowsPrintf ops) (hx : Everywhere (Printable ops) x)
    (hdepth : Within nestingLimit x) (format : Bool) :
    (∃ text, print ops format x = .ok text ∧ Legible x ∧ text.length + 2 ≤ maxSize ∧
      text = printed ops format x 0 ∧
      (Everywhere Ordinary x → parse ops.toNumbers text = some (reread ops x))) ∨
    print ops format x = .error .refused ∧
      (¬Legible x ∨ maxSize < (printed ops format x 0).length + 2) := by
  have hnumbers : Everywhere (ShortNumber ops) x := hx.imp fun _ h ↦ h.number
  by_cases hlegible : Legible x
  · rw [print_eq hnumbers hlegible format]
    split_ifs with hroom
    · refine .inl ⟨_, rfl, hlegible, hroom, rfl, fun hordinary ↦ ?_⟩
      have hreadable := (hx.and hordinary).imp fun _ h ↦ Readable.mk h.1 h.2
      exact parse_printed hops hreadable hdepth format
    · exact .inr ⟨rfl, .inr (not_le.mp hroom)⟩
  · exact .inr ⟨print_refused hnumbers hlegible format, .inl hlegible⟩

end Documents

end CJson
