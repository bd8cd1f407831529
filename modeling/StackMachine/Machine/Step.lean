import StackMachine.Code.Instruction
import StackMachine.Function.Basic
import StackMachine.Machine.State
import StackMachine.Text.Utf8

/-!
# Carrying out one instruction

Every instruction takes the words it needs off the operand stack before it does anything else, so that a lack of words is
met before any other fault.
-/

namespace StackMachine

/-- The result of an operation on two words; only division has none for some words. -/
def Arithmetic.apply (operation : Arithmetic) (left right : Word) : Except Fault Word :=
  match operation with
  | .add => .ok (left + right)
  | .subtract => .ok (left - right)
  | .multiply => .ok (left * right)
  | .divide =>
    if right = 0 then .error .divideByZero
    else if left = Int32.minValue ∧ right = -1 then .error .arithmeticOverflow
    else .ok (left / right)
  | .and => .ok (left &&& right)
  | .or => .ok (left ||| right)
  | .xor => .ok (left ^^^ right)

/-- Whether a comparison holds of two words. -/
def Comparison.holds (relation : Comparison) (left right : Word) : Bool :=
  match relation with
  | .gt => right < left
  | .gte => right ≤ left
  | .lt => left < right
  | .lte => left ≤ right
  | .eq => left == right
  | .neq => left != right

/-- An offset in memory as a word; an offset that is no word becomes the greatest word. -/
def addressWord (offset : Nat) : Word :=
  Int32.ofNat (min offset maxWord)

/-- Where a run goes on. -/
inductive Control where
  /-- Behind the instruction. -/
  | next
  /-- At an offset of the code. -/
  | jump (target : Nat)
  /-- The run ends. -/
  | halt
deriving DecidableEq, Repr

/-- The offset behind the frame of a function. -/
def Function.stackTop (f : Function) (layout : Layout) : Nat :=
  layout.stackStart + f.localSize.toNat

namespace Action

/-- Goes on at a branch target. -/
def jump (target : Word) : Action Control :=
  if 0 ≤ target.toInt then return .jump target.toInt.toNat else throw .codeOutOfBounds

/-- Takes a block from the heap, of at least one byte and a whole number of words, and gives its address. -/
def allocate (size : Word) : Action Word := fun s =>
  let rounded := roundUp (max 1 size.toInt).toNat wordSize
  if s.memory.layout.stop < s.heapPointer + rounded then .error .heapExhausted s
  else
    .ok (addressWord s.heapPointer)
      { s with heapPointer := s.heapPointer + rounded, heapAllocated := s.heapAllocated + rounded }

/-- Exchanges two stretches of memory through the room from `scratch` to the end of the stack region. -/
def exchange (scratch : Nat) (first second size : Word) : Action Unit := do
  read (·.check first size)
  read (·.check second size)
  let layout ← layout
  if layout.heapStart < scratch + Word.index size then throw .stackOverflow
  copy first (addressWord scratch) size
  copy second first size
  copy (addressWord scratch) second size

/-- The address of a local. -/
def localAddress (f : Function) (index : UInt8) : Action Word := do
  let layout ← layout
  match f.localOffsets[index.toNat]? with
  | some offset => return addressWord (layout.stackStart + offset.toNat)
  | none => throw (.invalidLocal index)

/-- Gives out the text that bytes encode. -/
def emitText (bytes : List UInt8) : Action Unit :=
  match decodeUtf8? bytes with
  | some text => emit text
  | none => throw .invalidUtf8

end Action

open StackMachine.Action in
/-- Carries out an instruction of a function. -/
def Instruction.execute (f : Function) (i : Instruction) : Action Control := do
  match i.opcode, i.operand with
  | .ret, _ => return .halt
  | .branch, .codeAddress target => jump target
  | .branchIfFalse, .codeAddress target =>
    let condition ← pop
    if condition = 0 then jump target else return .next
  | .loadImmediate, .immediate value =>
    push value
    return .next
  | .loadLocalAddress, .localIndex index =>
    let address ← localAddress f index
    push address
    return .next
  | .loadStaticAddress, .dataAddress address =>
    push address
    return .next
  | .storeInteger, _ | .storePointer, _ =>
    let value ← pop
    let address ← pop
    store address value
    return .next
  | .derefInteger, _ | .derefPointer, _ =>
    let address ← pop
    let value ← read (·.load address)
    push value
    return .next
  | .arithmetic operation, _ =>
    let right ← pop
    let left ← pop
    let result ← require (operation.apply left right)
    push result
    return .next
  | .comparison relation, _ =>
    let right ← pop
    let left ← pop
    push (if relation.holds left right then 1 else 0)
    return .next
  | .dup, _ =>
    let value ← pop
    push value
    push value
    return .next
  | .swap, _ =>
    let upper ← pop
    let lower ← pop
    push upper
    push lower
    return .next
  | .exchangeBytes, _ =>
    let size ← pop
    let first ← pop
    let second ← pop
    let layout ← layout
    exchange (f.stackTop layout) first second size
    return .next
  | .alloc, _ =>
    let size ← pop
    let address ← allocate size
    push address
    return .next
  | .outputString, _ =>
    let size ← pop
    let address ← pop
    let bytes ← read (·.slice address size)
    emitText bytes
    return .next
  | .copyBytes, _ =>
    let size ← pop
    let target ← pop
    let source ← pop
    copy source target size
    return .next
  | .output, _ =>
    let value ← pop
    emit (decimal value.toInt)
    return .next
  -- An opcode with an operand of another kind than its own.
  | opcode, _ => throw (.invalidOpcode opcode.byte)

end StackMachine
