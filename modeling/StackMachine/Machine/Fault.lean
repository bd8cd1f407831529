import StackMachine.Bytes.Word
import StackMachine.Text.Decimal

/-!
# Faults and traps

A fault is the reason why an instruction cannot be carried out; a trap is a fault with the offset of that instruction.
-/

namespace StackMachine

/-- Why an instruction cannot be carried out. -/
inductive Fault where
  /-- The frame, or the room above it that an exchange needs, does not fit the stack region. -/
  | stackOverflow
  /-- The heap region has no room left. -/
  | heapExhausted
  /-- The byte is no opcode. -/
  | invalidOpcode (byte : UInt8)
  | divideByZero
  /-- A quotient is no word. -/
  | arithmeticOverflow
  /-- The operand stack has too few words. -/
  | operandStackUnderflow
  /-- A stretch of memory does not lie inside the image. -/
  | memoryOutOfBounds (address length : Word)
  /-- There is no instruction at the offset. -/
  | codeOutOfBounds
  /-- The frame has no such local. -/
  | invalidLocal (index : UInt8)
  /-- The bytes to give out are no text. -/
  | invalidUtf8
  /-- The run has had its number of instructions. -/
  | instructionLimitExceeded
deriving DecidableEq, Repr

/-- The wording of a fault. -/
def Fault.message : Fault → String
  | .stackOverflow => "stack overflow"
  | .heapExhausted => "heap exhausted"
  | .invalidOpcode byte => s!"invalid opcode {hexByte byte}"
  | .divideByZero => "division by zero"
  | .arithmeticOverflow => "arithmetic overflow"
  | .operandStackUnderflow => "operand stack underflow"
  | .memoryOutOfBounds address length =>
    s!"memory access of {decimal length.toInt} bytes at {decimal address.toInt} is out of bounds"
  | .codeOutOfBounds => "instruction pointer out of bounds"
  | .invalidLocal index => s!"invalid local index {index.toNat}"
  | .invalidUtf8 => "output string is not valid UTF-8"
  | .instructionLimitExceeded => "instruction limit exceeded"

/-- A fault, and the offset of the instruction that met it. -/
structure Trap where
  fault : Fault
  ip : Nat
deriving DecidableEq, Repr

/-- The wording of a trap. -/
def Trap.message (trap : Trap) : String :=
  s!"{trap.fault.message} at ip {trap.ip}"

end StackMachine
