/-!
# The bytes of JSON's grammar

Names for the bytes that structure a JSON text, and the classes of bytes that its grammar distinguishes.
-/

namespace StackMachine.Json.Byte

@[match_pattern] abbrev quote : UInt8 := 0x22
@[match_pattern] abbrev plus : UInt8 := 0x2B
@[match_pattern] abbrev comma : UInt8 := 0x2C
@[match_pattern] abbrev minus : UInt8 := 0x2D
@[match_pattern] abbrev point : UInt8 := 0x2E
@[match_pattern] abbrev slash : UInt8 := 0x2F
@[match_pattern] abbrev zero : UInt8 := 0x30
@[match_pattern] abbrev colon : UInt8 := 0x3A
@[match_pattern] abbrev upperE : UInt8 := 0x45
@[match_pattern] abbrev openBracket : UInt8 := 0x5B
@[match_pattern] abbrev backslash : UInt8 := 0x5C
@[match_pattern] abbrev closeBracket : UInt8 := 0x5D
@[match_pattern] abbrev a : UInt8 := 0x61
@[match_pattern] abbrev b : UInt8 := 0x62
@[match_pattern] abbrev d : UInt8 := 0x64
@[match_pattern] abbrev e : UInt8 := 0x65
@[match_pattern] abbrev f : UInt8 := 0x66
@[match_pattern] abbrev l : UInt8 := 0x6C
@[match_pattern] abbrev n : UInt8 := 0x6E
@[match_pattern] abbrev r : UInt8 := 0x72
@[match_pattern] abbrev s : UInt8 := 0x73
@[match_pattern] abbrev t : UInt8 := 0x74
@[match_pattern] abbrev u : UInt8 := 0x75
@[match_pattern] abbrev openBrace : UInt8 := 0x7B
@[match_pattern] abbrev closeBrace : UInt8 := 0x7D

/-- Space, tab, line feed and carriage return may stand between tokens. -/
def isBlank (byte : UInt8) : Bool :=
  byte == 0x20 || byte == 0x09 || byte == 0x0A || byte == 0x0D

/-- A decimal digit. -/
def isDigit (byte : UInt8) : Bool :=
  0x30 ≤ byte && byte ≤ 0x39

/-- A control character, which may stand in a string only as an escape. -/
def isControl (byte : UInt8) : Bool :=
  byte < 0x20

/-- The byte of a character below U+0080. -/
def ofChar (c : Char) : UInt8 :=
  UInt8.ofNat c.toNat

/-- The value of a hexadecimal digit. -/
def hexValue? (byte : UInt8) : Option Nat :=
  if isDigit byte then some (byte.toNat - 0x30)
  else if 0x61 ≤ byte && byte ≤ 0x66 then some (byte.toNat - 0x61 + 10)
  else if 0x41 ≤ byte && byte ≤ 0x46 then some (byte.toNat - 0x41 + 10)
  else none

end StackMachine.Json.Byte
