import StackMachine.Bytes.Word
import StackMachine.Text.Decimal

/-!
# What can be wrong with code

The causes for which code is not decoded, a function is not accepted, or its static loads are not relocated, and the
wording of each.
-/

namespace StackMachine

/-- Locals that a one-byte index can address. -/
def maxLocals : Nat := 256

/-- Why a table of local offsets does not describe a frame. -/
inductive FrameFlaw where
  /-- There are more locals than an index can address. -/
  | tooManyLocals (count : Nat)
  /-- The first local does not start the frame. -/
  | firstNotZero (first : UInt32)
  /-- An offset is below the one before it. -/
  | decreasing (before after : UInt32)
  /-- The last local starts behind the end of the frame. -/
  | outsideFrame (last size : UInt32)
  /-- There is a frame, and no local in it. -/
  | sizeWithoutLocals (size : UInt32)
deriving DecidableEq, Repr

/-- Why code is not decoded, a function is not accepted, or its static loads are not relocated. -/
inductive CodeError where
  /-- The byte at the offset is no opcode. -/
  | invalidOpcode (offset : Nat) (byte : UInt8)
  /-- The code ends inside the instruction at the offset. -/
  | truncatedInstruction (offset : Nat)
  /-- The branch at the offset does not lead to an instruction or to the end of the code. -/
  | invalidBranchTarget (offset : Nat) (target : Word)
  /-- The instruction at the offset names a local that the frame does not have. -/
  | localOutOfRange (offset : Nat) (index : UInt8) (localCount : Nat)
  /-- The table of local offsets does not describe a frame. -/
  | inconsistentFrame (flaw : FrameFlaw)
  /-- A static block records an offset at which no static address is loaded. -/
  | danglingStaticLoad (block offset : Nat)
  /-- The function has been relocated before. -/
  | alreadyPatched (name : String)
  /-- There is not one address for each static block. -/
  | patchCountMismatch (name : String) (expected actual : Nat)
deriving DecidableEq, Repr

/-- The wording of a flaw. -/
def FrameFlaw.message : FrameFlaw → String
  | .tooManyLocals count => s!"{count} locals exceed the limit of {maxLocals}"
  | .firstNotZero first => s!"first local starts at {first.toNat}, expected 0"
  | .decreasing before after => s!"local offsets decrease from {before.toNat} to {after.toNat}"
  | .outsideFrame last size => s!"local at offset {last.toNat} lies outside the {size.toNat}-byte frame"
  | .sizeWithoutLocals size => s!"no locals but a {size.toNat}-byte frame"

/-- The wording of an error. -/
def CodeError.message : CodeError → String
  | .invalidOpcode offset byte => s!"invalid opcode {hexByte byte} at offset {offset}"
  | .truncatedInstruction offset => s!"truncated instruction at offset {offset}"
  | .invalidBranchTarget offset target =>
    s!"branch at offset {offset} targets {decimal target.toInt}, which is not an instruction boundary"
  | .localOutOfRange offset index localCount =>
    s!"local index {index.toNat} at offset {offset} is out of range ({localCount} locals)"
  | .inconsistentFrame flaw => s!"inconsistent frame layout: {flaw.message}"
  | .danglingStaticLoad block offset =>
    s!"static block {block} records load offset {offset}, which is not a static address load"
  | .alreadyPatched name => s!"function `{name}` has already been patched"
  | .patchCountMismatch name expected actual =>
    s!"function `{name}` has {expected} static blocks but {actual} addresses were supplied"

end StackMachine
