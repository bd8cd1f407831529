import StackMachine.Function.Basic
import StackMachine.Json.Parser
import StackMachine.Json.Printer
import StackMachine.Json.Record

/-!
# Functions in JSON

The records for identifiers, static blocks and functions, each with its fields in order, and their texts.
-/

namespace StackMachine

/-! ### Identifiers -/

/-- The fields of an identifier. -/
def Identifier.fields : List Field :=
  [.required "id", .withDefault "label" .null]

/-- An identifier's record; a missing label is left out. -/
def Identifier.toJson (identifier : Identifier) : Json :=
  .ofMembers <|
    ("id", .ofNat identifier.id.toNat) ::
      match identifier.label with
      | some label => [("label", .ofString label)]
      | none => []

/-- The identifier of a record. -/
def Identifier.ofJson? (value : Json) : Option Identifier :=
  match value.fields? Identifier.fields with
  | some [id, label] => do
    let id ← id.toUInt64?
    let label ← label.toOption? Json.toString?
    return { id, label }
  | _ => none

/-- The text of an identifier. -/
def Identifier.render (identifier : Identifier) : List UInt8 :=
  identifier.toJson.render

/-- The identifier of a text. -/
def Identifier.parse? (text : List UInt8) : Option Identifier :=
  (Json.parse? text).bind Identifier.ofJson?

/-! ### Static blocks -/

/-- The fields of a static block; an object, but not an array, may leave the identifier out. -/
def Block.fields : List Field :=
  [.required "data", .required "load_offsets", ⟨"identifier", some .null, none⟩]

/-- A block's record. -/
def Block.toJson (block : Block) : Json :=
  .ofMembers
    [("data", .ofList (fun byte => .ofNat byte.toNat) block.data.toList),
     ("load_offsets", .ofList (fun offset => .ofNat offset.toNat) block.loadOffsets),
     ("identifier", .ofOption Identifier.toJson block.identifier)]

/-- The block of a record. -/
def Block.ofJson? (value : Json) : Option Block :=
  match value.fields? Block.fields with
  | some [data, loadOffsets, identifier] => do
    let data ← data.toList? Json.toUInt8?
    let loadOffsets ← loadOffsets.toList? Json.toUInt64?
    let identifier ← identifier.toOption? Identifier.ofJson?
    return { data := data.toArray, loadOffsets, identifier }
  | _ => none

/-! ### Functions -/

/-- The fields of a function. -/
def Function.fields : List Field :=
  [.required "name", .required "local_offsets", .required "local_size", .required "code", .required "static_data",
   .withDefault "patched" (.bool false)]

/-- A function's record. -/
def Function.toJson (f : Function) : Json :=
  .ofMembers
    [("name", .ofString f.name),
     ("local_offsets", .ofList (fun offset => .ofNat offset.toNat) f.localOffsets),
     ("local_size", .ofNat f.localSize.toNat),
     ("code", .ofList (fun byte => .ofNat byte.toNat) f.code.toList),
     ("static_data", .ofList Block.toJson f.staticData),
     ("patched", .bool f.patched)]

/-- The function of a record. -/
def Function.ofJson? (value : Json) : Option Function :=
  match value.fields? Function.fields with
  | some [name, localOffsets, localSize, code, staticData, patched] => do
    let name ← name.toString?
    let localOffsets ← localOffsets.toList? Json.toUInt32?
    let localSize ← localSize.toUInt32?
    let code ← code.toList? Json.toUInt8?
    let staticData ← staticData.toList? Block.ofJson?
    let patched ← patched.toBool?
    return { name, localOffsets, localSize, code := code.toArray, staticData, patched }
  | _ => none

/-- The text of a function. -/
def Function.render (f : Function) : List UInt8 :=
  f.toJson.render

/-- The function of a text. -/
def Function.parse? (text : List UInt8) : Option Function :=
  (Json.parse? text).bind Function.ofJson?

end StackMachine
