import StackMachine.Json.Basic
import StackMachine.Json.Byte

/-!
# Writing JSON

A value is written without blanks, as UTF-8.  In a string a quote and a backslash are escaped by a backslash, the control
characters that have a short escape by that, and every other control character by `\u` and four lower-case digits.

A number of which only the form is known is written as `-0`, and a string that spells no text as a lone surrogate, so that
every value is read back as it was.
-/

namespace StackMachine.Json

/-- The bytes of an ASCII text. -/
def ascii (text : String) : List UInt8 :=
  text.toList.map Byte.ofChar

/-- The escape of a control character that has no short one. -/
def controlEscape (c : Char) : List UInt8 :=
  ascii "\\u00" ++ [Nat.digitChar (c.toNat / 16), Nat.digitChar (c.toNat % 16)].map Byte.ofChar

/-- A character as it stands in a string. -/
def renderChar (c : Char) : List UInt8 :=
  if c = '"' then [Byte.backslash, Byte.quote]
  else if c = '\\' then [Byte.backslash, Byte.backslash]
  else if c.toNat = 0x08 then [Byte.backslash, Byte.b]
  else if c.toNat = 0x09 then [Byte.backslash, Byte.t]
  else if c.toNat = 0x0A then [Byte.backslash, Byte.n]
  else if c.toNat = 0x0C then [Byte.backslash, Byte.f]
  else if c.toNat = 0x0D then [Byte.backslash, Byte.r]
  else if c.toNat < 0x20 then controlEscape c
  else String.utf8EncodeChar c

/-- A string with its quotes. -/
def renderString : Option String → List UInt8
  | some text => Byte.quote :: text.toList.flatMap renderChar ++ [Byte.quote]
  | none => ascii "\"\\ud800\""

/-- A number. -/
def renderNumber : Option Nat → List UInt8
  | some n => (Nat.toDigits 10 n).map Byte.ofChar
  | none => ascii "-0"

mutual

/-- The text of a value. -/
def render : Json → List UInt8
  | .null => ascii "null"
  | .bool true => ascii "true"
  | .bool false => ascii "false"
  | .number value => renderNumber value
  | .string text => renderString text
  | .array [] => [Byte.openBracket, Byte.closeBracket]
  | .array (v :: vs) => Byte.openBracket :: render v ++ renderElements vs
  | .object [] => [Byte.openBrace, Byte.closeBrace]
  | .object ((k, v) :: ms) => Byte.openBrace :: renderString k ++ Byte.colon :: render v ++ renderMembers ms

/-- The elements after the first, and the closing bracket. -/
def renderElements : List Json → List UInt8
  | [] => [Byte.closeBracket]
  | v :: vs => Byte.comma :: render v ++ renderElements vs

/-- The members after the first, and the closing brace. -/
def renderMembers : List (Option String × Json) → List UInt8
  | [] => [Byte.closeBrace]
  | (k, v) :: ms => Byte.comma :: renderString k ++ Byte.colon :: render v ++ renderMembers ms

end

end StackMachine.Json
