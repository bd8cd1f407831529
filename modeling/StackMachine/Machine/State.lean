import StackMachine.Machine.Memory
import StackMachine.Machine.OperandStack
import StackMachine.Size

/-!
# The state of a run

A run has memory, the lines it has given out, an operand stack of words, and the part of the heap it has taken.  It counts
the instructions it has begun, the greatest depth of the operand stack, and the bytes taken from the heap.

An action may change the state and may end in a fault; the state at the fault is kept.
-/

namespace StackMachine

/-- The state of a run. -/
structure State where
  memory : Memory
  /-- The lines given out, in order. -/
  output : Array String
  /-- The words that instructions work on. -/
  stack : OperandStack := {}
  /-- The address of the first byte of the heap that is not taken. -/
  heapPointer : Nat
  /-- Instructions begun.  The count is exact; one kept in a 64-bit register would differ from it only after `2 ^ 64`
  instructions. -/
  executed : Nat := 0
  /-- The greatest depth of the operand stack. -/
  peakDepth : Nat := 0
  /-- Bytes taken from the heap. -/
  heapAllocated : Nat := 0
deriving DecidableEq, Repr

/-- The state before the first instruction. -/
def State.initial (memory : Memory) (output : Array String) : State :=
  { memory, output, heapPointer := memory.layout.heapStart }

/-- An action on the state that may end in a fault. -/
abbrev Action := EStateM Fault State

namespace Action

/-- Takes the top word off the operand stack. -/
def pop : Action Word := fun s =>
  match s.stack.pop? with
  | none => .error .operandStackUnderflow s
  | some (word, rest) => .ok word { s with stack := rest }

/-- Puts a word on the operand stack. -/
def push (word : Word) : Action Unit := fun s =>
  .ok () { s with stack := s.stack.push word, peakDepth := max s.peakDepth (s.stack.depth + 1) }

/-- Gives out a line. -/
def emit (line : String) : Action Unit := fun s =>
  .ok () { s with output := s.output.push line }

/-- Ends in the fault of a computation that has one. -/
def require {α : Type} (result : Except Fault α) : Action α := fun s =>
  match result with
  | .ok value => .ok value s
  | .error fault => .error fault s

/-- Reads from memory. -/
def read {α : Type} (access : Memory → Except Fault α) : Action α := fun s =>
  require (access s.memory) s

/-- Changes memory if a check of it passes.  The check comes first and does not touch memory, so that there is only one
memory at any time and the change happens in place. -/
@[inline] def write (check : Memory → Except Fault Unit) (change : Memory → Memory) : Action Unit := fun s =>
  match check s.memory with
  | .ok () => .ok () { s with memory := change s.memory }
  | .error fault => .error fault s

/-- Stores a word in memory. -/
def store (address value : Word) : Action Unit :=
  write (·.check address wordLength) (·.put address value)

/-- Copies a stretch of memory. -/
def copy (source target length : Word) : Action Unit :=
  write (·.checkCopy source target length) (·.move source target length)

/-- The layout of memory. -/
def layout : Action Layout := fun s =>
  .ok s.memory.layout s

/-- Storing a word leaves the memory that `Memory.store` describes. -/
theorem store_apply (address value : Word) (s : State) :
    store address value s =
      match s.memory.store address value with
      | .ok memory => .ok () { s with memory }
      | .error fault => .error fault s := by
  unfold store write Memory.store
  dsimp only
  cases s.memory.check address wordLength <;> rfl

/-- Copying a stretch leaves the memory that `Memory.copy` describes. -/
theorem copy_apply (source target length : Word) (s : State) :
    copy source target length s =
      match s.memory.copy source target length with
      | .ok memory => .ok () { s with memory }
      | .error fault => .error fault s := by
  unfold copy write Memory.copy
  dsimp only
  cases s.memory.checkCopy source target length <;> rfl

end Action

end StackMachine
