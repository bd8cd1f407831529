/-!
# Types of variables

The types that a variable can have, as far as the layout of a frame is concerned, and how they are written.
-/

namespace StackMachine

/-- The type of a variable. -/
inductive DataType where
  /-- A 32-bit number. -/
  | int32
  /-- A truth value. -/
  | boolean
  /-- A text on the heap, with its length. -/
  | string
  /-- A text of unknown length, which has a size only behind a reference. -/
  | stringSlice
  /-- The address of a value. -/
  | reference (isMutable : Bool) (referent : DataType)
  /-- A value that may be missing. -/
  | option (inner : DataType)
  /-- A range with its current position. -/
  | iterator (item : DataType)
  /-- No value. -/
  | void
  /-- Several values. -/
  | tuple (elements : List DataType)
  /-- A type that the program defines. -/
  | named (name : String)
deriving Repr

/-- An iterator over a range of numbers. -/
def DataType.rangeIterator : DataType :=
  .iterator .int32

mutual

/-- A type as it is written. -/
def DataType.text : DataType → String
  | .int32 => "i32"
  | .boolean => "bool"
  | .string => "String"
  | .stringSlice => "str"
  | .reference true referent => "&mut " ++ referent.text
  | .reference false referent => "&" ++ referent.text
  | .option inner => "Option<" ++ inner.text ++ ">"
  | .iterator item => "Iterator<" ++ item.text ++ ">"
  | .void => "()"
  | .tuple [] => "()"
  | .tuple (element :: elements) => "(" ++ element.text ++ DataType.elementsText elements
  | .named name => name

/-- The elements of a tuple after the first, and the closing parenthesis. -/
def DataType.elementsText : List DataType → String
  | [] => ")"
  | element :: elements => ", " ++ element.text ++ DataType.elementsText elements

end

end StackMachine
