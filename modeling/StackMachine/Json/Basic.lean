/-!
# JSON values

A JSON value keeps what a reader of records can use.  Of a number it keeps the value only if the number is written as
plain digits, without sign, fraction or exponent.  Of a string it keeps the text only if there is one: an escape may
name half a surrogate pair, and the bytes between the quotes need not be UTF-8.  The members of an object keep their
order and may repeat a key.
-/

namespace StackMachine

/-- A JSON value. -/
inductive Json where
  | null
  | bool (value : Bool)
  /-- A number, with its value if it is written as plain digits. -/
  | number (value : Option Nat)
  /-- A string, with its text if it spells one. -/
  | string (text : Option String)
  | array (elements : List Json)
  | object (members : List (Option String × Json))
deriving Inhabited

/-- The number with the given value. -/
def Json.ofNat (n : Nat) : Json :=
  .number (some n)

/-- The string with the given text. -/
def Json.ofString (text : String) : Json :=
  .string (some text)

/-- The object with the given keys and values. -/
def Json.ofMembers (members : List (String × Json)) : Json :=
  .object (members.map fun member => (some member.1, member.2))

/-- A value that may be missing: null stands for a missing one. -/
def Json.ofOption {α : Type} (encode : α → Json) : Option α → Json
  | none => .null
  | some a => encode a

/-- The values of a list, in order. -/
def Json.ofList {α : Type} (encode : α → Json) (values : List α) : Json :=
  .array (values.map encode)

/-! ### Reading values of a known type -/

/-- The text of a string. -/
def Json.toString? : Json → Option String
  | .string text => text
  | _ => none

/-- A truth value. -/
def Json.toBool? : Json → Option Bool
  | .bool value => some value
  | _ => none

/-- A number in plain digits below a bound. -/
def Json.toNat? (bound : Nat) : Json → Option Nat
  | .number (some n) => if n < bound then some n else none
  | _ => none

/-- A number of 8 bits. -/
def Json.toUInt8? (value : Json) : Option UInt8 :=
  (value.toNat? UInt8.size).map UInt8.ofNat

/-- A number of 32 bits. -/
def Json.toUInt32? (value : Json) : Option UInt32 :=
  (value.toNat? UInt32.size).map UInt32.ofNat

/-- A number of 64 bits. -/
def Json.toUInt64? (value : Json) : Option UInt64 :=
  (value.toNat? UInt64.size).map UInt64.ofNat

/-- A value that may be missing. -/
def Json.toOption? {α : Type} (decode : Json → Option α) : Json → Option (Option α)
  | .null => some none
  | value => (decode value).map some

/-- A list of values. -/
def Json.toList? {α : Type} (decode : Json → Option α) : Json → Option (List α)
  | .array elements => elements.mapM decode
  | _ => none

end StackMachine
