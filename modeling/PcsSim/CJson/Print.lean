import PcsSim.CJson.Numerals
import PcsSim.CJson.WellFormed
import PcsSim.Lib.CCalls

/-!
# The printer of cJSON

The functions of `cJSON.c` write to a buffer that `ensure` lets grow; here a
write to bytes that were not ensured is an overrun.  `printf` and the
comparison of doubles are parameters.  `malloc` and `realloc` do not fail: where
they do, the source gives NULL like for a text that is too long.
-/

namespace CJson

structure Printing (D : Type) extends Numbers D where
  /-- neither `isnan` nor `isinf` -/
  isFinite : D → Bool
  /-- `sprintf` with `%1.pg` -/
  format : ℕ → D → Bytes
  compareDouble : D → D → Bool

/-- `text` has the bytes before `offset`. -/
structure PrintBuffer where
  text : Bytes
  length : ℕ
  depth : ℕ
  format : Bool

inductive PrintFault
  /-- the function returns false -/
  | refused
  /-- a write past the end of a buffer -/
  | overrun
  deriving DecidableEq

variable {D : Type}

def maxSize : ℕ := 2147483647

namespace PrintBuffer

def offset (p : PrintBuffer) : ℕ := p.text.length

/-- NULL is given only for a text that is too long, as `realloc` does not fail. -/
def ensure (p : PrintBuffer) (needed : ℕ) : Except PrintFault PrintBuffer :=
  if 0 < p.length ∧ p.length ≤ p.offset then .error .refused
  else if maxSize < needed then .error .refused
  else if needed + p.offset + 1 ≤ p.length then .ok p
  else if maxSize / 2 < needed + p.offset + 1 then
    if needed + p.offset + 1 ≤ maxSize then .ok { p with length := maxSize } else .error .refused
  else .ok { p with length := (needed + p.offset + 1) * 2 }

/-- Writes bytes and moves the offset past them. -/
def put (p : PrintBuffer) (bytes : Bytes) : Except PrintFault PrintBuffer :=
  if p.offset + bytes.length ≤ p.length then .ok { p with text := p.text ++ bytes }
  else .error .overrun

/-- Writes bytes and a NUL; `update_offset` or the function itself moves the
offset to the NUL. -/
def putText (p : PrintBuffer) (bytes : Bytes) : Except PrintFault PrintBuffer :=
  if p.offset + bytes.length + 1 ≤ p.length then .ok { p with text := p.text ++ bytes }
  else .error .overrun

def write (p : PrintBuffer) (needed : ℕ) (bytes : Bytes) : Except PrintFault PrintBuffer :=
  p.ensure needed >>= fun p ↦ p.put bytes

def writeText (p : PrintBuffer) (needed : ℕ) (bytes : Bytes) : Except PrintFault PrintBuffer :=
  p.ensure needed >>= fun p ↦ p.putText bytes

end PrintBuffer

section Scalars

/-- `sscanf` with `%lg`. -/
def scanDouble (ops : Printing D) (text : Bytes) : Option D :=
  if strtodLength text = 0 then none else some (ops.strtod (text.take (strtodLength text)))

/-- 15 digits where these come close enough to the number, else 17. -/
def numberText (ops : Printing D) (d : D) : Bytes :=
  if ops.isFinite d then
    match scanDouble ops (ops.format 15 d) with
    | none => ops.format 17 d
    | some test => if ops.compareDouble test d then ops.format 15 d else ops.format 17 d
  else ascii "null"

def printNumber (ops : Printing D) (d : D) (p : PrintBuffer) : Except PrintFault PrintBuffer :=
  let text := numberText ops d
  -- `number_buffer` has 26 bytes
  if 26 ≤ text.length then .error .overrun
  else p.writeText (text.length + 1) text

/-- How many bytes the escape sequence of a byte has beside the first. -/
def escapeCharacters (b : UInt8) : ℕ :=
  if b = quote ∨ b = backslash ∨ b = 8 ∨ b = 12 ∨ b = 10 ∨ b = 13 ∨ b = 9 then 1
  else if b < 32 then 5
  else 0

def hexCharacter (n : ℕ) : UInt8 := if n < 10 then 48 + n.toUInt8 else 87 + n.toUInt8

/-- `%04x` of a byte. -/
def hex4 (b : UInt8) : Bytes := [48, 48, hexCharacter (b.toNat / 16), hexCharacter (b.toNat % 16)]

def escapeOne (b : UInt8) : Bytes :=
  if 31 < b ∧ b ≠ quote ∧ b ≠ backslash then [b]
  else if b = backslash then [backslash, backslash]
  else if b = quote then [backslash, quote]
  else if b = 8 then [backslash, 98]
  else if b = 12 then [backslash, 102]
  else if b = 10 then [backslash, 110]
  else if b = 13 then [backslash, 114]
  else if b = 9 then [backslash, 116]
  else backslash :: 117 :: hex4 b

def escape (input : Bytes) : Bytes := input.flatMap escapeOne

/-- The closing quote goes behind as many bytes as were counted, which is where
the escaped text ends. -/
def printStringPtr (input : Option Bytes) (p : PrintBuffer) : Except PrintFault PrintBuffer :=
  match input with
  | none => p.writeText 3 [quote, quote]
  | some input =>
    let escapes := (input.map escapeCharacters).sum
    let outputLength := input.length + escapes
    if escapes = 0 then p.writeText (outputLength + 3) (quote :: (input ++ [quote]))
    else
      p.writeText (outputLength + 3) (quote :: ((escape input).take outputLength ++ [quote]))

end Scalars

section Values

def opening (format : Bool) : Bytes := if format then [123, 10] else [123]

def separator (format : Bool) : Bytes := if format then [comma, 32] else [comma]

def colons (format : Bool) : Bytes := if format then [colon, 9] else [colon]

/-- What stands behind a member with the members `rest` after it. -/
def ending (format : Bool) (rest : List (CJson D)) : Bytes :=
  (if rest = [] then [] else [comma]) ++ (if format then [10] else [])

def indent (p : PrintBuffer) : Except PrintFault PrintBuffer :=
  if p.format then p.write p.depth (List.replicate p.depth 9) else .ok p

def closing (p : PrintBuffer) : Except PrintFault PrintBuffer :=
  if p.format then p.writeText (p.depth + 1) (List.replicate (p.depth - 1) 9 ++ [125])
  else p.writeText 2 [125]

mutual

def printValue (ops : Printing D) : CJson D → PrintBuffer → Except PrintFault PrintBuffer
  | ⟨.null, _, _, _, _, _⟩, p => p.writeText 5 (ascii "null")
  | ⟨.false_, _, _, _, _, _⟩, p => p.writeText 6 (ascii "false")
  | ⟨.true_, _, _, _, _, _⟩, p => p.writeText 5 (ascii "true")
  | ⟨.number, _, _, valuedouble, _, _⟩, p => printNumber ops valuedouble p
  | ⟨.raw, none, _, _, _, _⟩, _ => .error .refused
  | ⟨.raw, some valuestring, _, _, _, _⟩, p => p.writeText (valuestring.length + 1) valuestring
  | ⟨.string, valuestring, _, _, _, _⟩, p => printStringPtr valuestring p
  | ⟨.array, _, _, _, _, child⟩, p => do
    let p ← p.write 1 [91]
    let p ← printElements ops child { p with depth := p.depth + 1 }
    let p ← p.writeText 2 [93]
    .ok { p with depth := p.depth - 1 }
  | ⟨.object, _, _, _, _, child⟩, p => do
    let p ← p.write ((opening p.format).length + 1) (opening p.format)
    let p ← printMembers ops child { p with depth := p.depth + 1 }
    let p ← closing p
    .ok { p with depth := p.depth - 1 }
  | ⟨.invalid, _, _, _, _, _⟩, _ => .error .refused

/-- The loop of `print_array`. -/
def printElements (ops : Printing D) :
    List (CJson D) → PrintBuffer → Except PrintFault PrintBuffer
  | [], p => .ok p
  | item :: rest, p => do
    let p ← printValue ops item p
    if rest = [] then .ok p
    else do
      let p ← p.writeText ((separator p.format).length + 1) (separator p.format)
      printElements ops rest p

/-- The loop of `print_object`. -/
def printMembers (ops : Printing D) :
    List (CJson D) → PrintBuffer → Except PrintFault PrintBuffer
  | [], p => .ok p
  | item :: rest, p => do
    let p ← indent p
    let p ← printStringPtr item.string p
    let p ← p.write (colons p.format).length (colons p.format)
    let p ← printValue ops item p
    let p ← p.writeText ((ending p.format rest).length + 1) (ending p.format rest)
    printMembers ops rest p

end

end Values

/-- `cJSON_Print` and `cJSON_PrintUnformatted`. -/
def print (ops : Printing D) (format : Bool) (item : CJson D) : Except PrintFault Bytes := do
  let p ← printValue ops item { text := [], length := 256, depth := 0, format := format }
  .ok p.text

/-! ## The text -/

def printedString (input : Option Bytes) : Bytes := quote :: (escape (input.getD []) ++ [quote])

def tabs (format : Bool) (depth : ℕ) : Bytes := if format then List.replicate depth 9 else []

mutual

/-- The text of an item at a depth of nesting, if it has one. -/
def printed (ops : Printing D) (format : Bool) : CJson D → ℕ → Bytes
  | ⟨.null, _, _, _, _, _⟩, _ => ascii "null"
  | ⟨.false_, _, _, _, _, _⟩, _ => ascii "false"
  | ⟨.true_, _, _, _, _, _⟩, _ => ascii "true"
  | ⟨.number, _, _, valuedouble, _, _⟩, _ => numberText ops valuedouble
  | ⟨.raw, valuestring, _, _, _, _⟩, _ => valuestring.getD []
  | ⟨.string, valuestring, _, _, _, _⟩, _ => printedString valuestring
  | ⟨.invalid, _, _, _, _, _⟩, _ => []
  | ⟨.array, _, _, _, _, child⟩, depth =>
    [91] ++ (printedElements ops format child (depth + 1) ++ [93])
  | ⟨.object, _, _, _, _, child⟩, depth =>
    opening format ++
      (printedMembers ops format child (depth + 1) ++ (tabs format depth ++ [125]))

def printedElements (ops : Printing D) (format : Bool) : List (CJson D) → ℕ → Bytes
  | [], _ => []
  | item :: rest, depth =>
    printed ops format item depth ++
      if rest = [] then [] else separator format ++ printedElements ops format rest depth

def printedMembers (ops : Printing D) (format : Bool) : List (CJson D) → ℕ → Bytes
  | [], _ => []
  | item :: rest, depth =>
    tabs format depth ++ (printedString item.string ++ (colons format ++
      (printed ops format item depth ++ (ending format rest ++
        printedMembers ops format rest depth))))

end

/-- The type of the item is known, and a raw item has a text. -/
structure Known (x : CJson D) : Prop where
  valid : x.type ≠ .invalid
  raw : x.type = .raw → x.valuestring.isSome

/-- The items that are printed with an item are known. -/
inductive Legible : CJson D → Prop
  | item {x : CJson D} (here : Known x)
      (below : x.type = .array ∨ x.type = .object → ∀ y ∈ x.child, Legible y) : Legible x

/-- Induction over the items below an item. -/
theorem children_induction {P : CJson D → Prop} (h : ∀ x, (∀ y ∈ x.child, P y) → P x)
    (x : CJson D) : P x :=
  h x fun y _ ↦ children_induction h y
termination_by sizeOf x
decreasing_by
  have hy : y ∈ x.child := by assumption
  have hlt := List.sizeOf_lt_of_mem hy
  cases x
  simp only [CJson.mk.sizeOf_spec] at hlt ⊢
  omega

section Unformatted

variable {ops : Printing D}

theorem printedElements_congr {format : Bool} {items : List (CJson D)} {depth depth' : ℕ}
    (h : ∀ x ∈ items, printed ops format x depth = printed ops format x depth') :
    printedElements ops format items depth = printedElements ops format items depth' := by
  induction items with
  | nil => rfl
  | cons x items ih =>
      rw [printedElements, printedElements, h x List.mem_cons_self,
        ih fun y hy ↦ h y (List.mem_cons_of_mem x hy)]

theorem printedMembers_congr {items : List (CJson D)} {depth depth' : ℕ}
    (h : ∀ x ∈ items, printed ops false x depth = printed ops false x depth') :
    printedMembers ops false items depth = printedMembers ops false items depth' := by
  induction items with
  | nil => rfl
  | cons x items ih =>
      rw [printedMembers, printedMembers, h x List.mem_cons_self,
        ih fun y hy ↦ h y (List.mem_cons_of_mem x hy)]
      rfl

/-- Without tabs the nesting does not show. -/
theorem printed_unformatted (x : CJson D) (depth depth' : ℕ) :
    printed ops false x depth = printed ops false x depth' := by
  induction x using children_induction generalizing depth depth' with
  | h x ih =>
  obtain ⟨type, valuestring, valueint, valuedouble, string, child⟩ := x
  cases type with
  | array =>
      rw [printed, printed]
      have hchild : ∀ y ∈ child, printed ops false y (depth + 1) =
          printed ops false y (depth' + 1) := fun y hy ↦ ih y hy (depth + 1) (depth' + 1)
      rw [printedElements_congr hchild]
  | object =>
      rw [printed, printed]
      have hchild : ∀ y ∈ child, printed ops false y (depth + 1) =
          printed ops false y (depth' + 1) := fun y hy ↦ ih y hy (depth + 1) (depth' + 1)
      rw [printedMembers_congr hchild]
      rfl
  | _ => rfl

theorem printedMembers_unformatted (items : List (CJson D)) (depth depth' : ℕ) :
    printedMembers ops false items depth = printedMembers ops false items depth' :=
  printedMembers_congr fun x _ ↦ printed_unformatted x depth depth'

end Unformatted

section Escapes

/-- The bytes with an escape sequence of two characters, and the second one. -/
def shortEscapes : List (UInt8 × UInt8) :=
  [(quote, quote), (backslash, backslash), (8, 98), (12, 102), (10, 110), (13, 114), (9, 116)]

theorem escape_cases (b : UInt8) :
    (escapeOne b = [b] ∧ escapeCharacters b = 0 ∧ b ≠ quote ∧ b ≠ backslash) ∨
      (∃ c, (b, c) ∈ shortEscapes ∧ escapeOne b = [backslash, c] ∧ escapeCharacters b = 1) ∨
        (b < 32 ∧ escapeOne b = backslash :: 117 :: hex4 b ∧ escapeCharacters b = 5) := by
  by_cases hshort : b = quote ∨ b = backslash ∨ b = 8 ∨ b = 12 ∨ b = 10 ∨ b = 13 ∨ b = 9
  · refine .inr (.inl ?_)
    rcases hshort with rfl | rfl | rfl | rfl | rfl | rfl | rfl
    · exact ⟨quote, by decide, rfl, rfl⟩
    · exact ⟨backslash, by decide, rfl, rfl⟩
    · exact ⟨98, by decide, rfl, rfl⟩
    · exact ⟨102, by decide, rfl, rfl⟩
    · exact ⟨110, by decide, rfl, rfl⟩
    · exact ⟨114, by decide, rfl, rfl⟩
    · exact ⟨116, by decide, rfl, rfl⟩
  · have hcharacters : escapeCharacters b = if b < 32 then 5 else 0 := if_neg hshort
    simp only [not_or] at hshort
    obtain ⟨hquote, hslash, h8, h12, h10, h13, h9⟩ := hshort
    by_cases hlow : b < 32
    · have hcontrol : ¬(31 < b ∧ b ≠ quote ∧ b ≠ backslash) := by
        rintro ⟨hhigh, -⟩
        rw [UInt8.lt_iff_toNat_lt] at hlow hhigh
        change b.toNat < 32 at hlow
        change 31 < b.toNat at hhigh
        omega
      refine .inr (.inr ⟨hlow, ?_, hcharacters.trans (if_pos hlow)⟩)
      rw [escapeOne, if_neg hcontrol, if_neg hslash, if_neg hquote, if_neg h8, if_neg h12,
        if_neg h10, if_neg h13, if_neg h9]
    · have hhigh : 31 < b := by
        rw [UInt8.lt_iff_toNat_lt] at hlow ⊢
        change ¬b.toNat < 32 at hlow
        change 31 < b.toNat
        omega
      refine .inl ⟨if_pos ⟨hhigh, hquote, hslash⟩, hcharacters.trans (if_neg hlow), hquote, hslash⟩

theorem length_escapeOne (b : UInt8) : (escapeOne b).length = 1 + escapeCharacters b := by
  rcases escape_cases b with ⟨hone, hcount, -⟩ | ⟨c, -, hone, hcount⟩ | ⟨-, hone, hcount⟩
  all_goals
    rw [hone, hcount]
    rfl

theorem escape_cons (b : UInt8) (input : Bytes) :
    escape (b :: input) = escapeOne b ++ escape input :=
  List.flatMap_cons

theorem length_escape (input : Bytes) :
    (escape input).length = input.length + (input.map escapeCharacters).sum := by
  induction input with
  | nil => rfl
  | cons b input ih =>
      rw [escape_cons, List.length_append, ih, length_escapeOne, List.length_cons, List.map_cons,
        List.sum_cons]
      omega

theorem escape_of_sum {input : Bytes} (h : (input.map escapeCharacters).sum = 0) :
    escape input = input := by
  induction input with
  | nil => rfl
  | cons b input ih =>
      rw [List.map_cons, List.sum_cons, Nat.add_eq_zero_iff] at h
      obtain ⟨hb, hrest⟩ := h
      rw [escape_cons, ih hrest]
      rcases escape_cases b with ⟨hone, -⟩ | ⟨c, -, -, hcount⟩ | ⟨-, -, hcount⟩
      · rw [hone]
        rfl
      · omega
      · omega

end Escapes

section Buffer

variable {p : PrintBuffer} {bytes : Bytes} {r : Except PrintFault PrintBuffer}

/-- What is written so far lies in the buffer, with a byte after it. -/
def PrintBuffer.Fits (p : PrintBuffer) : Prop := p.offset < p.length ∧ p.length ≤ maxSize

/-- The bytes were added, nothing else. -/
def Appends (p : PrintBuffer) (bytes : Bytes) (r : Except PrintFault PrintBuffer) : Prop :=
  ∃ length, r = .ok { p with text := p.text ++ bytes, length := length } ∧
    p.offset + bytes.length < length ∧ length ≤ maxSize

/-- The bytes are added, or refused because the text gets too long. -/
def Tries (p : PrintBuffer) (bytes : Bytes) (r : Except PrintFault PrintBuffer) : Prop :=
  Appends p bytes r ∨ r = .error .refused ∧ maxSize < p.offset + bytes.length + 2

/-- The bytes are added exactly when the text does not get too long. -/
def Prints (p : PrintBuffer) (bytes : Bytes) (r : Except PrintFault PrintBuffer) : Prop :=
  Appends p bytes r ∧ p.offset + bytes.length + 2 ≤ maxSize ∨
    r = .error .refused ∧ maxSize < p.offset + bytes.length + 2

theorem ensure_spec (h : p.Fits) (needed : ℕ) :
    (∃ length, p.ensure needed = .ok { p with length := length } ∧
      needed + p.offset + 1 ≤ length ∧ length ≤ maxSize) ∨
    p.ensure needed = .error .refused ∧ maxSize < needed + p.offset + 1 := by
  obtain ⟨hoffset, hlength⟩ := h
  have hvalid : ¬(0 < p.length ∧ p.length ≤ p.offset) := by omega
  have hhalf : maxSize / 2 * 2 ≤ maxSize := Nat.div_mul_le_self _ _
  rw [PrintBuffer.ensure, if_neg hvalid]
  split_ifs with hneeded hroom hlarge hmax
  · exact .inr ⟨rfl, by omega⟩
  · exact .inl ⟨p.length, rfl, hroom, hlength⟩
  · exact .inl ⟨maxSize, rfl, hmax, le_rfl⟩
  · exact .inr ⟨rfl, by omega⟩
  · exact .inl ⟨(needed + p.offset + 1) * 2, rfl, by omega, by omega⟩

theorem Prints.tries (h : Prints p bytes r) : Tries p bytes r :=
  h.imp And.left id

theorem appends_put {length : ℕ} (hroom : p.offset + bytes.length < length)
    (hlength : length ≤ maxSize) :
    Appends p bytes (PrintBuffer.put { p with length := length } bytes) :=
  ⟨length, if_pos hroom.le, hroom, hlength⟩

theorem appends_putText {length : ℕ} (hroom : p.offset + bytes.length < length)
    (hlength : length ≤ maxSize) :
    Appends p bytes (PrintBuffer.putText { p with length := length } bytes) :=
  ⟨length, if_pos hroom, hroom, hlength⟩

theorem prints_writeText (h : p.Fits) {needed : ℕ} (hneeded : needed = bytes.length + 1) :
    Prints p bytes (p.writeText needed bytes) := by
  rcases ensure_spec h needed with ⟨length, hensure, hroom, hlength⟩ | ⟨hensure, hfull⟩
  · refine .inl ⟨?_, by omega⟩
    rw [PrintBuffer.writeText, hensure, Except.ok_bind_eq]
    exact appends_putText (by omega) hlength
  · refine .inr ⟨?_, by omega⟩
    rw [PrintBuffer.writeText, hensure, Except.error_bind_eq]

theorem prints_write (h : p.Fits) {needed : ℕ} (hneeded : needed = bytes.length + 1) :
    Prints p bytes (p.write needed bytes) := by
  rcases ensure_spec h needed with ⟨length, hensure, hroom, hlength⟩ | ⟨hensure, hfull⟩
  · refine .inl ⟨?_, by omega⟩
    rw [PrintBuffer.write, hensure, Except.ok_bind_eq]
    exact appends_put (by omega) hlength
  · refine .inr ⟨?_, by omega⟩
    rw [PrintBuffer.write, hensure, Except.error_bind_eq]

/-- Without the byte for the NUL the last bytes of the buffer can be written,
but nothing after them. -/
theorem tries_write (h : p.Fits) {needed : ℕ} (hneeded : needed = bytes.length) :
    Tries p bytes (p.write needed bytes) := by
  rcases ensure_spec h needed with ⟨length, hensure, hroom, hlength⟩ | ⟨hensure, hfull⟩
  · refine .inl ?_
    rw [PrintBuffer.write, hensure, Except.ok_bind_eq]
    exact appends_put (by omega) hlength
  · refine .inr ⟨?_, by omega⟩
    rw [PrintBuffer.write, hensure, Except.error_bind_eq]

/-- The buffer after more bytes. -/
def PrintBuffer.after (p : PrintBuffer) (bytes : Bytes) (length : ℕ) : PrintBuffer :=
  { p with text := p.text ++ bytes, length := length }

theorem offset_after (p : PrintBuffer) (bytes : Bytes) (length : ℕ) :
    (p.after bytes length).offset = p.offset + bytes.length :=
  List.length_append

theorem after_after (p : PrintBuffer) (bytes bytes' : Bytes) (length length' : ℕ) :
    (p.after bytes length).after bytes' length' = p.after (bytes ++ bytes') length' := by
  simp [PrintBuffer.after]

theorem Tries.bind {bytes' : Bytes} {f : PrintBuffer → Except PrintFault PrintBuffer}
    (h : Tries p bytes r)
    (hf : ∀ length, (p.after bytes length).Fits →
      Tries (p.after bytes length) bytes' (f (p.after bytes length))) :
    Tries p (bytes ++ bytes') (r >>= f) := by
  rcases h with ⟨length, hr, hroom, hlength⟩ | ⟨hr, hfull⟩
  · have hfits : (p.after bytes length).Fits := ⟨by rwa [offset_after], hlength⟩
    rw [hr, Except.ok_bind_eq]
    rcases hf length hfits with ⟨length', hr', hroom', hlength'⟩ | ⟨hr', hfull'⟩
    · rw [offset_after] at hroom'
      refine .inl ⟨length', ?_, ?_, hlength'⟩
      · exact hr'.trans (congrArg Except.ok (after_after p bytes bytes' length length'))
      · rw [List.length_append]
        omega
    · rw [offset_after] at hfull'
      refine .inr ⟨hr', ?_⟩
      rw [List.length_append]
      omega
  · refine .inr ⟨?_, ?_⟩
    · rw [hr, Except.error_bind_eq]
    · rw [List.length_append]
      omega

theorem Tries.bind_refused {f : PrintBuffer → Except PrintFault PrintBuffer}
    (h : Tries p bytes r)
    (hf : ∀ length, (p.after bytes length).Fits → f (p.after bytes length) = .error .refused) :
    r >>= f = .error .refused := by
  rcases h with ⟨length, hr, hroom, hlength⟩ | ⟨hr, -⟩
  · rw [hr, Except.ok_bind_eq]
    exact hf length ⟨by rwa [offset_after], hlength⟩
  · rw [hr, Except.error_bind_eq]

theorem Tries.bind_prints {bytes' : Bytes} {f : PrintBuffer → Except PrintFault PrintBuffer}
    (h : Tries p bytes r)
    (hf : ∀ length, (p.after bytes length).Fits →
      Prints (p.after bytes length) bytes' (f (p.after bytes length))) :
    Prints p (bytes ++ bytes') (r >>= f) := by
  rcases h.bind fun length hfits ↦ (hf length hfits).tries with happends | hrefused
  · by_cases hfull : maxSize < p.offset + (bytes ++ bytes').length + 2
    · -- then the second part was refused
      obtain ⟨length, hok, -, -⟩ := happends
      rcases h with ⟨length', hr, hroom, hlength⟩ | ⟨hr, -⟩
      · have hfits : (p.after bytes length').Fits := ⟨by rwa [offset_after], hlength⟩
        rw [hr, Except.ok_bind_eq] at hok
        rcases hf length' hfits with ⟨-, hroom'⟩ | ⟨hr', -⟩
        · rw [offset_after] at hroom'
          rw [List.length_append] at hfull
          omega
        · cases hok.symm.trans hr'
      · rw [hr, Except.error_bind_eq] at hok
        cases hok
    · exact .inl ⟨happends, not_lt.mp hfull⟩
  · exact .inr hrefused

/-- The nesting does not matter to what fits. -/
theorem Prints.restore (h : Prints { p with depth := p.depth + 1 } bytes r) :
    Prints p bytes (r >>= fun p ↦ .ok { p with depth := p.depth - 1 }) := by
  rcases h with ⟨⟨length, hr, hroom, hlength⟩, hmax⟩ | ⟨hr, hfull⟩
  · refine .inl ⟨⟨length, ?_, hroom, hlength⟩, hmax⟩
    rw [hr]
    rfl
  · refine .inr ⟨?_, hfull⟩
    rw [hr]
    rfl

end Buffer

section Texts

variable {ops : Printing D} {p : PrintBuffer}

theorem prints_printStringPtr (h : p.Fits) (input : Option Bytes) :
    Prints p (printedString input) (printStringPtr input p) := by
  cases input with
  | none => exact prints_writeText h rfl
  | some input =>
      have hlength := length_escape input
      have hneeded : input.length + (input.map escapeCharacters).sum + 3 =
          (printedString (some input)).length + 1 := by
        rw [printedString, List.length_cons, List.length_append, Option.getD_some, hlength]
        rfl
      have hwhole : (escape input).take (input.length + (input.map escapeCharacters).sum) =
          escape input := by
        rw [← hlength, List.take_length]
      have hprints := prints_writeText h hneeded
      rw [printStringPtr]
      simp only [hwhole]
      split_ifs with hsum
      · have hplain : quote :: (input ++ [quote]) = printedString (some input) := by
          rw [printedString, Option.getD_some, escape_of_sum hsum]
        rw [hplain]
        exact hprints
      · exact hprints

theorem prints_printNumber (h : p.Fits) {d : D} (hshort : (numberText ops d).length < 26) :
    Prints p (numberText ops d) (printNumber ops d p) := by
  rw [printNumber, if_neg (not_le.mpr hshort)]
  exact prints_writeText h rfl

theorem tries_nil (h : p.Fits) : Tries p [] (.ok p) := by
  refine .inl ⟨p.length, ?_, h.1, h.2⟩
  rw [List.append_nil]

/-- Numbers are written into an array of 26 bytes. -/
def ShortNumber (ops : Printing D) (x : CJson D) : Prop :=
  x.type = .number → (numberText ops x.valuedouble).length < 26

theorem tries_printElements {items : List (CJson D)}
    (hitems : ∀ x ∈ items, ∀ p : PrintBuffer, p.Fits →
      Prints p (printed ops p.format x p.depth) (printValue ops x p)) (h : p.Fits) :
    Tries p (printedElements ops p.format items p.depth) (printElements ops items p) := by
  induction items generalizing p with
  | nil =>
      rw [printedElements, printElements]
      exact tries_nil h
  | cons x rest ih =>
      rw [printedElements, printElements]
      apply (hitems x List.mem_cons_self p h).tries.bind
      intro length hfits
      by_cases hrest : rest = []
      · rw [if_pos hrest, if_pos hrest]
        exact tries_nil hfits
      · rw [if_neg hrest, if_neg hrest]
        apply (prints_writeText hfits rfl).tries.bind
        intro length' hfits'
        exact ih (fun y hy ↦ hitems y (List.mem_cons_of_mem x hy)) hfits'

theorem tries_indent (h : p.Fits) : Tries p (tabs p.format p.depth) (indent p) := by
  rw [tabs, indent]
  split_ifs
  · exact tries_write h List.length_replicate.symm
  · exact tries_nil h

theorem tries_printMembers {items : List (CJson D)}
    (hitems : ∀ x ∈ items, ∀ p : PrintBuffer, p.Fits →
      Prints p (printed ops p.format x p.depth) (printValue ops x p)) (h : p.Fits) :
    Tries p (printedMembers ops p.format items p.depth) (printMembers ops items p) := by
  induction items generalizing p with
  | nil =>
      rw [printedMembers, printMembers]
      exact tries_nil h
  | cons x rest ih =>
      rw [printedMembers, printMembers]
      apply (tries_indent h).bind
      intro _ hfits
      apply (prints_printStringPtr hfits x.string).tries.bind
      intro _ hfits
      apply (tries_write hfits rfl).bind
      intro _ hfits
      apply (hitems x List.mem_cons_self _ hfits).tries.bind
      intro _ hfits
      apply (prints_writeText hfits rfl).tries.bind
      intro _ hfits
      exact ih (fun y hy ↦ hitems y (List.mem_cons_of_mem x hy)) hfits

theorem fits_deeper (h : p.Fits) : PrintBuffer.Fits { p with depth := p.depth + 1 } := h

theorem prints_closing (h : p.Fits) (hdepth : 0 < p.depth) :
    Prints p (tabs p.format (p.depth - 1) ++ [125]) (closing p) := by
  rw [tabs, closing]
  split_ifs
  · apply prints_writeText h
    rw [List.length_append, List.length_replicate, List.length_singleton]
    omega
  · exact prints_writeText h rfl

theorem prints_array {items : List (CJson D)}
    (hitems : ∀ x ∈ items, ∀ p : PrintBuffer, p.Fits →
      Prints p (printed ops p.format x p.depth) (printValue ops x p)) (h : p.Fits) :
    Prints p (printedElements ops p.format items p.depth ++ [93])
      (printElements ops items p >>= fun p ↦ p.writeText 2 [93]) := by
  apply (tries_printElements hitems h).bind_prints
  intro _ hfits
  exact prints_writeText hfits rfl

theorem prints_object {items : List (CJson D)}
    (hitems : ∀ x ∈ items, ∀ p : PrintBuffer, p.Fits →
      Prints p (printed ops p.format x p.depth) (printValue ops x p)) (h : p.Fits)
    (hdepth : 0 < p.depth) :
    Prints p (printedMembers ops p.format items p.depth ++ (tabs p.format (p.depth - 1) ++ [125]))
      (printMembers ops items p >>= closing) := by
  apply (tries_printMembers hitems h).bind_prints
  intro _ hfits
  exact prints_closing hfits hdepth

/-- The text is written whole, or refused because it is too long. -/
theorem prints_printValue {x : CJson D} (hx : Everywhere (ShortNumber ops) x) (hlegible : Legible x)
    (h : p.Fits) : Prints p (printed ops p.format x p.depth) (printValue ops x p) := by
  induction x using children_induction generalizing p with
  | h x ih =>
  obtain ⟨hknown, hbelow⟩ := hlegible
  have hchild : x.type = .array ∨ x.type = .object → ∀ y ∈ x.child, ∀ p : PrintBuffer, p.Fits →
      Prints p (printed ops p.format y p.depth) (printValue ops y p) := by
    intro htype y hy p hp
    cases hx with
    | item _ below => exact ih y hy (below y hy) (hbelow htype y hy) hp
  obtain ⟨type, valuestring, valueint, valuedouble, string, child⟩ := x
  cases type with
  | null => exact prints_writeText h rfl
  | false_ => exact prints_writeText h rfl
  | true_ => exact prints_writeText h rfl
  | number => exact prints_printNumber h (hx.here rfl)
  | string => exact prints_printStringPtr h valuestring
  | raw =>
      obtain ⟨text, rfl⟩ : ∃ text, valuestring = some text :=
        Option.isSome_iff_exists.mp (hknown.raw rfl)
      exact prints_writeText h rfl
  | invalid => exact absurd rfl hknown.valid
  | array =>
      rw [printed, printValue]
      apply (tries_write h rfl).bind_prints
      intro length hfits
      have hrestore := (prints_array (hchild (.inl rfl)) (fits_deeper hfits)).restore
      rw [bind_assoc] at hrestore
      exact hrestore
  | object =>
      rw [printed, printValue]
      apply (prints_write h rfl).tries.bind_prints
      intro length hfits
      have hrestore :=
        (prints_object (hchild (.inr rfl)) (fits_deeper hfits) (Nat.succ_pos _)).restore
      rw [bind_assoc] at hrestore
      exact hrestore

theorem fits_start (format : Bool) :
    PrintBuffer.Fits { text := [], length := 256, depth := 0, format := format } :=
  ⟨Nat.zero_lt_succ 255, Nat.le_of_ble_eq_true rfl⟩

/-- `cJSON_Print` gives the text if it is short enough for the buffer and NULL
otherwise; nothing is written outside a buffer. -/
theorem print_eq {x : CJson D} (hx : Everywhere (ShortNumber ops) x) (hlegible : Legible x)
    (format : Bool) :
    print ops format x =
      if (printed ops format x 0).length + 2 ≤ maxSize then .ok (printed ops format x 0)
      else .error .refused := by
  rw [print]
  rcases prints_printValue hx hlegible (fits_start format) with
    ⟨⟨length, hr, -⟩, hmax⟩ | ⟨hr, hfull⟩
  · rw [PrintBuffer.offset, List.length_nil, Nat.zero_add] at hmax
    rw [hr, if_pos hmax]
    rfl
  · rw [PrintBuffer.offset, List.length_nil, Nat.zero_add] at hfull
    rw [hr, if_neg (not_le.mpr hfull)]
    rfl

end Texts

section Refusals

variable {ops : Printing D} {p : PrintBuffer}

/-- The item is printed if that is possible, and refused if not. -/
structure Answers (ops : Printing D) (x : CJson D) : Prop where
  prints : Legible x → ∀ p : PrintBuffer, p.Fits →
    Prints p (printed ops p.format x p.depth) (printValue ops x p)
  refuses : ¬Legible x → ∀ p : PrintBuffer, p.Fits → printValue ops x p = .error .refused

theorem exists_mem_rest {x : CJson D} {rest : List (CJson D)} (hx : Legible x)
    (hex : ∃ y ∈ x :: rest, ¬Legible y) : ∃ y ∈ rest, ¬Legible y := by
  obtain ⟨y, hy, hnot⟩ := hex
  have hne : y ≠ x := by
    rintro rfl
    exact hnot hx
  exact ⟨y, (List.mem_cons.mp hy).resolve_left hne, hnot⟩

/-- The loops stop at the first item that is refused. -/
theorem printElements_refused {items : List (CJson D)} (hitems : ∀ x ∈ items, Answers ops x)
    (hex : ∃ x ∈ items, ¬Legible x) (h : p.Fits) :
    printElements ops items p = .error .refused := by
  induction items generalizing p with
  | nil =>
      obtain ⟨x, hx, -⟩ := hex
      cases hx
  | cons x rest ih =>
      have hanswers := hitems x List.mem_cons_self
      rw [printElements]
      by_cases hx : Legible x
      · have hrest := exists_mem_rest hx hex
        apply (hanswers.prints hx p h).tries.bind_refused
        intro _ hfits
        have hne : rest ≠ [] := by
          rintro rfl
          obtain ⟨y, hy, -⟩ := hrest
          cases hy
        rw [if_neg hne]
        apply (prints_writeText hfits rfl).tries.bind_refused
        intro _ hfits
        exact ih (fun y hy ↦ hitems y (List.mem_cons_of_mem x hy)) hrest hfits
      · rw [hanswers.refuses hx p h, Except.error_bind_eq]

theorem printMembers_refused {items : List (CJson D)} (hitems : ∀ x ∈ items, Answers ops x)
    (hex : ∃ x ∈ items, ¬Legible x) (h : p.Fits) :
    printMembers ops items p = .error .refused := by
  induction items generalizing p with
  | nil =>
      obtain ⟨x, hx, -⟩ := hex
      cases hx
  | cons x rest ih =>
      have hanswers := hitems x List.mem_cons_self
      rw [printMembers]
      apply (tries_indent h).bind_refused
      intro _ hfits
      apply (prints_printStringPtr hfits x.string).tries.bind_refused
      intro _ hfits
      apply (tries_write hfits rfl).bind_refused
      intro _ hfits
      by_cases hx : Legible x
      · apply (hanswers.prints hx _ hfits).tries.bind_refused
        intro _ hfits
        apply (prints_writeText hfits rfl).tries.bind_refused
        intro _ hfits
        exact ih (fun y hy ↦ hitems y (List.mem_cons_of_mem x hy)) (exists_mem_rest hx hex) hfits
      · rw [hanswers.refuses hx _ hfits, Except.error_bind_eq]

/-- An item that is not known, or has one below it, is refused. -/
theorem printValue_refused {x : CJson D} (hx : Everywhere (ShortNumber ops) x)
    (hlegible : ¬Legible x) (h : p.Fits) : printValue ops x p = .error .refused := by
  induction x using children_induction generalizing p with
  | h x ih =>
  have hchild : ∀ y ∈ x.child, Answers ops y := by
    intro y hy
    cases hx with
    | item _ below =>
        exact ⟨fun hy' _ ↦ prints_printValue (below y hy) hy', fun hy' _ ↦ ih y hy (below y hy) hy'⟩
  have hbelow : Known x → (x.type = .array ∨ x.type = .object) ∧ ∃ y ∈ x.child, ¬Legible y := by
    intro hknown
    by_contra hnot
    refine hlegible (.item hknown fun htype y hy ↦ ?_)
    by_contra hy'
    exact hnot ⟨htype, y, hy, hy'⟩
  obtain ⟨type, valuestring, valueint, valuedouble, string, child⟩ := x
  cases type with
  | invalid => rfl
  | raw =>
      cases valuestring with
      | none => rfl
      | some text =>
          obtain ⟨htype | htype, -⟩ := hbelow ⟨CJsonType.noConfusion, fun _ ↦ rfl⟩ <;> cases htype
  | array =>
      obtain ⟨-, hex⟩ := hbelow ⟨CJsonType.noConfusion, CJsonType.noConfusion⟩
      have hopening : Tries p [91] (p.write 1 [91]) := tries_write h rfl
      rw [printValue]
      apply hopening.bind_refused
      intro _ hfits
      rw [printElements_refused hchild hex (fits_deeper hfits), Except.error_bind_eq]
  | object =>
      obtain ⟨-, hex⟩ := hbelow ⟨CJsonType.noConfusion, CJsonType.noConfusion⟩
      rw [printValue]
      apply (prints_write h rfl).tries.bind_refused
      intro _ hfits
      rw [printMembers_refused hchild hex (fits_deeper hfits), Except.error_bind_eq]
  | _ =>
      obtain ⟨htype | htype, -⟩ := hbelow ⟨CJsonType.noConfusion, CJsonType.noConfusion⟩ <;>
        cases htype

theorem print_refused {x : CJson D} (hx : Everywhere (ShortNumber ops) x) (hlegible : ¬Legible x)
    (format : Bool) : print ops format x = .error .refused := by
  rw [print, printValue_refused hx hlegible (fits_start format), Except.error_bind_eq]

end Refusals

end CJson
