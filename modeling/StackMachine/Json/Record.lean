import StackMachine.Json.Basic

/-!
# Records in JSON

A record with known fields is written as an object, or as an array that holds the fields' values in order.  In an object
the fields may stand in any order, keys that are no field are skipped, and a field may not be repeated.  An array holds no
more elements than there are fields.  A field can have a value that stands in for it where an object does not hold it, and
one where an array ends before it.
-/

namespace StackMachine

/-- A field of a record. -/
structure Field where
  /-- The field's key in an object. -/
  name : String
  /-- Stands in for the field where an object does not hold it. -/
  absent : Option Json
  /-- Stands in for the field where an array ends before it. -/
  trailing : Option Json

/-- A field that has to be there. -/
def Field.required (name : String) : Field :=
  ⟨name, none, none⟩

/-- A field for which a value can stand in. -/
def Field.withDefault (name : String) (value : Json) : Field :=
  ⟨name, some value, some value⟩

/-- The field's value in an object. -/
def Field.find? (field : Field) (members : List (Option String × Json)) : Option Json :=
  match members.filter fun member => member.1 == some field.name with
  | [] => field.absent
  | [member] => some member.2
  | _ => none

/-- The values of the fields in an array. -/
def Field.takeElements? : List Field → List Json → Option (List Json)
  | [], [] => some []
  | [], _ :: _ => none
  | field :: fields, [] => do
    let value ← field.trailing
    let values ← Field.takeElements? fields []
    return value :: values
  | _ :: fields, value :: rest => do
    let values ← Field.takeElements? fields rest
    return value :: values

/-- The values of the fields, in their order. -/
def Json.fields? (fields : List Field) : Json → Option (List Json)
  | .object members =>
    if members.all fun member => member.1.isSome then fields.mapM fun field => field.find? members else none
  | .array elements => Field.takeElements? fields elements
  | _ => none

end StackMachine
