import StackMachine.Code.Opcode
import StackMachine.Json.Basic

/-!
# Opcodes in JSON

An opcode is written as its mnemonic, and read from its mnemonic or from an object that maps the mnemonic alone to null.
-/

namespace StackMachine

/-- The opcode as a JSON value. -/
def Opcode.toJson (opcode : Opcode) : Json :=
  .ofString opcode.mnemonic

/-- The opcode of a JSON value. -/
def Opcode.ofJson? : Json → Option Opcode
  | .string (some name) => Opcode.ofMnemonic? name
  | .object [(some name, .null)] => Opcode.ofMnemonic? name
  | _ => none

end StackMachine
