import Mathlib.Data.Rat.Floor
import PcsSim.CJson.Basic
import PcsSim.Lib.Reader

/-!
# The parser of cJSON

The functions of `cJSON.c` read a buffer from an offset; here they read the
list of the bytes from there to the end of the buffer and return the rest.
The buffer ends with the terminating NUL of the text.  The reading of a number
is `strtod`, whose value is left to a parameter.
-/

namespace CJson

structure Numbers (D : Type) where
  /-- the value in a cleared item -/
  zero : D
  /-- the value `strtod` gives to a text it accepts whole -/
  strtod : Bytes → D
  geIntMax : D → Bool
  leIntMin : D → Bool
  /-- the conversion to `int` of what is in between -/
  toInt : D → ℤ

variable {D : Type}

def intMax : ℤ := 2147483647

def intMin : ℤ := -2147483648

def nestingLimit : ℕ := 1000

def quote : UInt8 := 34

def backslash : UInt8 := 92

def comma : UInt8 := 44

def colon : UInt8 := 58

def isDigit (b : UInt8) : Bool := 48 ≤ b ∧ b ≤ 57

/-- Past the end it steps back to the last byte. -/
def skipWhitespace (l : Bytes) : Bytes :=
  match l.dropWhile (· ≤ 32) with
  | [] => l.getLast?.toList
  | rest => rest

def skipUtf8Bom (l : Bytes) : Bytes :=
  if 4 < l.length ∧ [0xEF, 0xBB, 0xBF].isPrefixOf l then l.drop 3 else l

def newItem (ops : Numbers D) (type : CJsonType) : CJson D where
  type := type
  valuestring := none
  valueint := 0
  valuedouble := ops.zero
  string := none
  child := []

section Strings

/-- The number of bytes before the quote that closes the text. -/
def stringLength : Bytes → Option ℕ
  | [] => none
  | [b] => if b = quote then some 0 else none
  | b :: c :: l =>
    if b = quote then some 0
    else if b = backslash then (stringLength l).map (· + 2)
    else (stringLength (c :: l)).map (· + 1)

def hexDigit (b : UInt8) : Option ℕ :=
  if 48 ≤ b ∧ b ≤ 57 then some (b.toNat - 48)
  else if 65 ≤ b ∧ b ≤ 70 then some (10 + b.toNat - 65)
  else if 97 ≤ b ∧ b ≤ 102 then some (10 + b.toNat - 97)
  else none

/-- What is no number counts as 0. -/
def parseHex4 (input : Bytes) : ℕ :=
  ((input.take 4).foldlM (fun h b ↦ (hexDigit b).map (16 * h + ·)) 0).getD 0

/-- The bytes of a code point with the given number of continuation bytes. -/
def encodeUtf8 (firstByteMark : ℕ) : ℕ → ℕ → Bytes → Bytes
  | 0, codepoint, l =>
    (if l = [] then codepoint &&& 0x7F else (codepoint ||| firstByteMark) &&& 0xFF).toUInt8 :: l
  | n + 1, codepoint, l =>
    encodeUtf8 firstByteMark n (codepoint >>> 6) (((codepoint ||| 0x80) &&& 0xBF).toUInt8 :: l)

def codepointToUtf8 (codepoint : ℕ) : Option Bytes :=
  if codepoint < 0x80 then some (encodeUtf8 0 0 codepoint [])
  else if codepoint < 0x800 then some (encodeUtf8 0xC0 1 codepoint [])
  else if codepoint < 0x10000 then some (encodeUtf8 0xE0 2 codepoint [])
  else if codepoint ≤ 0x10FFFF then some (encodeUtf8 0xF0 3 codepoint [])
  else none

/-- The bytes for the one or two `\uXXXX` at the front and the number of bytes
these take.  `input` reaches up to and including the closing quote. -/
def utf16LiteralToUtf8 (input : Bytes) : Option (Bytes × ℕ) :=
  let left := input.length - 1
  if left < 6 then none
  else
    let firstCode := parseHex4 (input.drop 2)
    if 0xDC00 ≤ firstCode ∧ firstCode ≤ 0xDFFF then none
    else if 0xD800 ≤ firstCode ∧ firstCode ≤ 0xDBFF then
      if left - 6 < 6 then none
      else if (input.drop 6).take 2 ≠ [backslash, 117] then none
      else
        let secondCode := parseHex4 (input.drop 8)
        if secondCode < 0xDC00 ∨ 0xDFFF < secondCode then none
        else
          (codepointToUtf8
            (0x10000 + (((firstCode &&& 0x3FF) <<< 10) ||| (secondCode &&& 0x3FF)))).map (·, 12)
    else (codepointToUtf8 firstCode).map (·, 6)

def unescapeOne (input : Bytes) : Option (Bytes × ℕ) :=
  match input.tail.head? with
  | none => none
  | some c =>
    if c = 98 then some ([8], 2)
    else if c = 102 then some ([12], 2)
    else if c = 110 then some ([10], 2)
    else if c = 114 then some ([13], 2)
    else if c = 116 then some ([9], 2)
    else if c = quote ∨ c = backslash ∨ c = 47 then some ([c], 2)
    else if c = 117 then utf16LiteralToUtf8 input
    else none

/-- The loop through a string, which ends when the input pointer reaches the
closing quote or has passed it; `skip` bytes belong to an escape sequence
already read. -/
def unescape : ℕ → Bytes → Option Bytes
  | _, [] => some []
  | _, [_] => some []
  | skip + 1, _ :: l => unescape skip l
  | 0, b :: c :: l =>
    if b ≠ backslash then
      (unescape 0 (c :: l)).map (b :: ·)
    else
      match unescapeOne (b :: c :: l) with
      | none => none
      | some (out, sequenceLength) =>
        (unescape (sequenceLength - 1) (c :: l)).map (out ++ ·)

/-- The output as a C string, which a decoded NUL cuts short. -/
def parseString : Reader UInt8 Bytes
  | [] => none
  | b :: input =>
    if b ≠ quote then none
    else
      match stringLength input with
      | none => none
      | some n =>
        (unescape 0 (input.take (n + 1))).map fun output ↦
          (output.takeWhile (· ≠ 0), input.drop (n + 1))

end Strings

section NumberTexts

def isNumberByte (b : UInt8) : Bool :=
  isDigit b ∨ b = 43 ∨ b = 45 ∨ b = 101 ∨ b = 69 ∨ b = 46

def signLength : Bytes → ℕ
  | b :: _ => if b = 43 ∨ b = 45 then 1 else 0
  | [] => 0

def exponentLength : Bytes → ℕ
  | [] => 0
  | b :: l =>
    if b = 101 ∨ b = 69 then
      let digits := ((l.drop (signLength l)).takeWhile isDigit).length
      if digits = 0 then 0 else 1 + signLength l + digits
    else 0

/-- How much of a text of number bytes `strtod` accepts: a sign, digits with a
point in them, an exponent. -/
def strtodLength (text : Bytes) : ℕ :=
  let sign := signLength text
  let whole := ((text.drop sign).takeWhile isDigit).length
  let point := if (text.drop (sign + whole)).head? = some 46 then 1 else 0
  let fraction :=
    if point = 0 then 0 else ((text.drop (sign + whole + point)).takeWhile isDigit).length
  if whole + fraction = 0 then 0
  else
    let mantissa := sign + whole + point + fraction
    mantissa + exponentLength (text.drop mantissa)

def digitsValue (digits : Bytes) : ℕ := digits.foldl (fun n b ↦ 10 * n + (b.toNat - 48)) 0

/-- The value of an accepted text, without rounding. -/
def decimalValue (text : Bytes) : ℚ :=
  let unsigned := text.drop (signLength text)
  let whole := unsigned.takeWhile isDigit
  let fraction :=
    match unsigned.drop whole.length with
    | 46 :: l => l.takeWhile isDigit
    | _ => []
  let digits := digitsValue (whole ++ fraction)
  let exponent : ℤ :=
    match unsigned.dropWhile (fun b ↦ b ≠ 101 ∧ b ≠ 69) with
    | [] => 0
    | _ :: l =>
      let size := digitsValue (l.drop (signLength l))
      if l.head? = some 45 then -size else size
  let magnitude : ℚ := digits * 10 ^ (exponent - fraction.length)
  if text.head? = some 45 then -magnitude else magnitude

def Numbers.rational : Numbers ℚ where
  zero := 0
  strtod := decimalValue
  geIntMax x := intMax ≤ x
  leIntMin x := x ≤ intMin
  toInt x := if 0 ≤ x then ⌊x⌋ else ⌈x⌉

def Numbers.valueint (ops : Numbers D) (number : D) : ℤ :=
  if ops.geIntMax number then intMax
  else if ops.leIntMin number then intMin
  else ops.toInt number

def parseNumber (ops : Numbers D) : Reader UInt8 (CJson D) := fun l ↦
  let text := (l.take 63).takeWhile isNumberByte
  let n := strtodLength text
  if n = 0 then none
  else
    let number := ops.strtod (text.take n)
    let item : CJson D :=
      { newItem ops .number with valuedouble := number, valueint := ops.valueint number }
    some (item, l.drop n)

end NumberTexts

section Values

def parseMember (value : Reader UInt8 (CJson D)) : Reader UInt8 (CJson D) := fun l ↦
  match parseString l with
  | none => none
  | some (name, rest) =>
    match skipWhitespace rest with
    | [] => none
    | b :: rest =>
      if b ≠ colon then none
      else
        (value (skipWhitespace rest)).map fun r ↦ ({ r.1 with string := some name }, r.2)

def parseItems (close : UInt8) (item : Reader UInt8 (CJson D)) :
    Reader UInt8 (List (CJson D)) := fun l ↦
  match skipWhitespace l with
  | [] => none
  | b :: rest =>
    if b = close then some ([], rest)
    else Reader.separated comma close skipWhitespace item (rest.length + 2) (b :: rest)

def parseArray (ops : Numbers D) (value : Reader UInt8 (CJson D)) : Reader UInt8 (CJson D) :=
  fun l ↦ (parseItems 93 value l.tail).map fun r ↦ ({ newItem ops .array with child := r.1 }, r.2)

def parseObject (ops : Numbers D) (value : Reader UInt8 (CJson D)) : Reader UInt8 (CJson D) :=
  fun l ↦ (parseItems 125 (parseMember value) l.tail).map fun r ↦
    ({ newItem ops .object with child := r.1 }, r.2)

/-- The cases of `parse_value`, with the readers for `[` and `{`. -/
def parseKinds (ops : Numbers D) (array object : Reader UInt8 (CJson D)) :
    Reader UInt8 (CJson D) := fun l ↦
  if (ascii "null").isPrefixOf l then some (newItem ops .null, l.drop 4)
  else if (ascii "false").isPrefixOf l then some (newItem ops .false_, l.drop 5)
  else if (ascii "true").isPrefixOf l then
    some ({ newItem ops .true_ with valueint := 1 }, l.drop 4)
  else
    match l.head? with
    | none => none
    | some b =>
      if b = quote then
        (parseString l).map fun r ↦ ({ newItem ops .string with valuestring := some r.1 }, r.2)
      else if b = 45 ∨ isDigit b then parseNumber ops l
      else if b = 91 then array l
      else if b = 123 then object l
      else none

/-- `depthLeft` is how many more levels of nesting there may be. -/
def parseValue (ops : Numbers D) : ℕ → Reader UInt8 (CJson D)
  | 0 => parseKinds ops (fun _ ↦ none) (fun _ ↦ none)
  | d + 1 => parseKinds ops (parseArray ops (parseValue ops d)) (parseObject ops (parseValue ops d))

end Values

/-- `cJSON_Parse` of a text; what follows the first value is ignored. -/
def parse (ops : Numbers D) (value : Bytes) : Option (CJson D) :=
  (parseValue ops nestingLimit (skipWhitespace (skipUtf8Bom (value ++ [0])))).map (·.1)

end CJson
