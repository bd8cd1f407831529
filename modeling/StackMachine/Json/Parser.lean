import StackMachine.Json.Basic
import StackMachine.Json.Byte
import StackMachine.Text.Utf8

/-!
# Reading JSON

The reader takes bytes and follows the grammar strictly: no blanks but space, tab, line feed and carriage return, no
leading zeros, no trailing commas, no raw control characters in strings, and nothing behind the value but blanks.

A string is read in two steps.  The first splits it into bytes and escaped UTF-16 units; the second joins surrogate pairs
and gives up on the text, not on the value, where a unit has no partner or the bytes are not UTF-8.
-/

namespace StackMachine.Json

/-! ### Strings -/

/-- What a string is made of. -/
inductive StringPart where
  /-- A byte that stands for itself, or that a short escape stands for. -/
  | byte (value : UInt8)
  /-- A UTF-16 unit that an escape of four digits stands for. -/
  | unit (value : Nat)

/-- The byte that a short escape stands for. -/
def shortEscape? (byte : UInt8) : Option UInt8 :=
  match byte with
  | Byte.quote => some Byte.quote
  | Byte.backslash => some Byte.backslash
  | Byte.slash => some Byte.slash
  | Byte.b => some 0x08
  | Byte.f => some 0x0C
  | Byte.n => some 0x0A
  | Byte.r => some 0x0D
  | Byte.t => some 0x09
  | _ => none

/-- The UTF-16 unit that four hexadecimal digits stand for. -/
def unit? (a b c d : UInt8) : Option Nat := do
  let a ← Byte.hexValue? a
  let b ← Byte.hexValue? b
  let c ← Byte.hexValue? c
  let d ← Byte.hexValue? d
  return ((a * 16 + b) * 16 + c) * 16 + d

/-- The parts of a string behind its opening quote, and what follows its closing quote. -/
def stringParts? : List UInt8 → Option (List StringPart × List UInt8)
  | [] => none
  | byte :: rest =>
    if byte = Byte.quote then some ([], rest)
    else if byte = Byte.backslash then
      match rest with
      | Byte.u :: a :: b :: c :: d :: rest => do
        let unit ← unit? a b c d
        let (parts, rest) ← stringParts? rest
        return (.unit unit :: parts, rest)
      | escape :: rest => do
        let byte ← shortEscape? escape
        let (parts, rest) ← stringParts? rest
        return (.byte byte :: parts, rest)
      | [] => none
    else if Byte.isControl byte then none
    else do
      let (parts, rest) ← stringParts? rest
      return (.byte byte :: parts, rest)

/-- The first unit of a surrogate pair. -/
def isHighSurrogate (unit : Nat) : Bool :=
  0xD800 ≤ unit && unit ≤ 0xDBFF

/-- The second unit of a surrogate pair. -/
def isLowSurrogate (unit : Nat) : Bool :=
  0xDC00 ≤ unit && unit ≤ 0xDFFF

/-- The UTF-8 bytes of a code point. -/
def codePoint (value : Nat) : List UInt8 :=
  String.utf8EncodeChar (Char.ofNat value)

/-- The bytes that the parts of a string spell, unless half of a surrogate pair stands alone. -/
def spell? : List StringPart → Option (List UInt8)
  | [] => some []
  | .byte value :: parts => (spell? parts).map (value :: ·)
  | .unit high :: parts =>
    if isHighSurrogate high then
      match parts with
      | .unit low :: parts =>
        if isLowSurrogate low then
          (spell? parts).map (codePoint (0x10000 + (high - 0xD800) * 0x400 + (low - 0xDC00)) ++ ·)
        else none
      | _ => none
    else if isLowSurrogate high then none
    else (spell? parts).map (codePoint high ++ ·)

/-- A string behind its opening quote, with its text if it spells one, and what follows it. -/
def readString? (input : List UInt8) : Option (Option String × List UInt8) := do
  let (parts, rest) ← stringParts? input
  return ((spell? parts).bind decodeUtf8?, rest)

/-! ### Numbers -/

/-- At least one digit, and what follows the digits. -/
def digits? (input : List UInt8) : Option (List UInt8 × List UInt8) :=
  match input.takeWhile Byte.isDigit with
  | [] => none
  | first :: others => some (first :: others, input.dropWhile Byte.isDigit)

/-- The digits before the point; a zero is followed by no digit. -/
def integerPart? (input : List UInt8) : Option (List UInt8 × List UInt8) := do
  let (digits, rest) ← digits? input
  if digits.head? = some Byte.zero ∧ digits.length ≠ 1 then none else return (digits, rest)

/-- Skips a fraction and tells whether there was one. -/
def fraction? : List UInt8 → Option (Bool × List UInt8)
  | Byte.point :: rest => (digits? rest).map fun split => (true, split.2)
  | rest => some (false, rest)

/-- Skips the sign of an exponent. -/
def exponentSign : List UInt8 → List UInt8
  | Byte.plus :: rest => rest
  | Byte.minus :: rest => rest
  | rest => rest

/-- Skips an exponent and tells whether there was one. -/
def exponent? : List UInt8 → Option (Bool × List UInt8)
  | Byte.e :: rest => (digits? (exponentSign rest)).map fun split => (true, split.2)
  | Byte.upperE :: rest => (digits? (exponentSign rest)).map fun split => (true, split.2)
  | rest => some (false, rest)

/-- The number that decimal digits stand for. -/
def digitsValue (digits : List UInt8) : Nat :=
  Nat.ofDigitChars 10 (digits.map fun byte => Char.ofNat byte.toNat) 0

/-- A number without its sign, and what follows it. -/
def unsignedNumber? (input : List UInt8) : Option (Option Nat × List UInt8) := do
  let (digits, rest) ← integerPart? input
  let (hasFraction, rest) ← fraction? rest
  let (hasExponent, rest) ← exponent? rest
  return (if hasFraction || hasExponent then none else some (digitsValue digits), rest)

/-- A number, with its value if it is written as plain digits, and what follows it. -/
def readNumber? : List UInt8 → Option (Option Nat × List UInt8)
  | Byte.minus :: rest => (unsignedNumber? rest).map fun number => (none, number.2)
  | input => unsignedNumber? input

/-! ### Values -/

/-- The input behind leading blanks. -/
def skipBlanks (input : List UInt8) : List UInt8 :=
  input.dropWhile Byte.isBlank

/-- A value that holds no others, and what follows it. -/
def readScalar? : List UInt8 → Option (Json × List UInt8)
  | Byte.n :: Byte.u :: Byte.l :: Byte.l :: rest => some (.null, rest)
  | Byte.t :: Byte.r :: Byte.u :: Byte.e :: rest => some (.bool true, rest)
  | Byte.f :: Byte.a :: Byte.l :: Byte.s :: Byte.e :: rest => some (.bool false, rest)
  | Byte.quote :: rest => (readString? rest).map fun string => (.string string.1, string.2)
  | input => (readNumber? input).map fun number => (.number number.1, number.2)

/-- A key with its colon, and what follows them. -/
def readKey? (input : List UInt8) : Option (Option String × List UInt8) :=
  match skipBlanks input with
  | Byte.quote :: rest => do
    let (key, rest) ← readString? rest
    match skipBlanks rest with
    | Byte.colon :: rest => return (key, rest)
    | _ => none
  | _ => none

mutual

/-- A value, and what follows it; `depth` bounds the calls that are nested or follow each other in it. -/
def readValue? : (depth : Nat) → List UInt8 → Option (Json × List UInt8)
  | 0, _ => none
  | depth + 1, input =>
    match skipBlanks input with
    | Byte.openBracket :: rest =>
      match skipBlanks rest with
      | Byte.closeBracket :: rest => some (.array [], rest)
      | rest => (readElements? depth rest).map fun (elements, rest) => (.array elements, rest)
    | Byte.openBrace :: rest =>
      match skipBlanks rest with
      | Byte.closeBrace :: rest => some (.object [], rest)
      | rest => (readMembers? depth rest).map fun (members, rest) => (.object members, rest)
    | rest => readScalar? rest

/-- The elements of an array up to its closing bracket, and what follows it. -/
def readElements? : (depth : Nat) → List UInt8 → Option (List Json × List UInt8)
  | 0, _ => none
  | depth + 1, input => do
    let (element, rest) ← readValue? depth input
    match skipBlanks rest with
    | Byte.closeBracket :: rest => return ([element], rest)
    | Byte.comma :: rest => do
      let (elements, rest) ← readElements? depth rest
      return (element :: elements, rest)
    | _ => none

/-- The members of an object up to its closing brace, and what follows it. -/
def readMembers? : (depth : Nat) → List UInt8 → Option (List (Option String × Json) × List UInt8)
  | 0, _ => none
  | depth + 1, input => do
    let (key, rest) ← readKey? input
    let (value, rest) ← readValue? depth rest
    match skipBlanks rest with
    | Byte.closeBrace :: rest => return ([(key, value)], rest)
    | Byte.comma :: rest => do
      let (members, rest) ← readMembers? depth rest
      return ((key, value) :: members, rest)
    | _ => none

end

/-- The value that a text stands for.  At least one byte is read between every second call, so twice the length of the
text bounds them. -/
def parse? (text : List UInt8) : Option Json := do
  let (value, rest) ← readValue? (2 * text.length + 1) text
  if skipBlanks rest = [] then return value else none

end StackMachine.Json
