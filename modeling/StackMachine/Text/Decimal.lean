/-!
# Numbers as text

Decimal numbers padded with zeros to a least width, where a minus sign counts towards the width, and bytes as pairs of
hexadecimal digits.
-/

namespace StackMachine

/-- The decimal digits of a number, with zeros in front up to the given width. -/
def zeroPadded (width n : Nat) : String :=
  String.ofList ((Nat.toDigits 10 n).leftpad width '0')

/-- An integer in decimal, with zeros after the sign so that sign and digits reach the given width. -/
def zeroPaddedInt (width : Nat) (z : Int) : String :=
  if z < 0 then "-" ++ zeroPadded (width - 1) z.natAbs else zeroPadded width z.natAbs

/-- An integer in decimal. -/
def decimal (z : Int) : String :=
  zeroPaddedInt 1 z

/-- The two hexadecimal digits of a byte, in lower case. -/
def hexDigits (byte : UInt8) : List Char :=
  [Nat.digitChar (byte.toNat / 16), Nat.digitChar (byte.toNat % 16)]

/-- A byte as `0x` and two upper-case hexadecimal digits. -/
def hexByte (byte : UInt8) : String :=
  "0x" ++ String.ofList ((hexDigits byte).map Char.toUpper)

/-- Bytes as lower-case hexadecimal digits. -/
def hexText (bytes : List UInt8) : String :=
  String.ofList (bytes.flatMap hexDigits)

end StackMachine
