import StackMachine.Assembly.Allocation
import StackMachine.Code.Opcode
import StackMachine.Function.Basic

/-!
# Builders

A builder collects the instructions of a function.  Branches name labels and static loads name blocks; both are handles,
which are indices into the builder's own tables.  A label is set once, to the position behind the instructions collected
so far.
-/

namespace StackMachine

/-- A place in the code that may become known later. -/
structure Label where
  index : UInt32
deriving DecidableEq, Repr

/-- A static block of a builder. -/
structure BlockHandle where
  index : UInt32
deriving DecidableEq, Repr

/-- An instruction whose operand may still have to be found. -/
inductive Emission where
  /-- An opcode without operand. -/
  | plain (opcode : { opcode : Opcode // opcode.operandKind = .none })
  /-- Push a constant. -/
  | immediate (value : Word)
  /-- Push the address of a local. -/
  | localAddress (index : UInt8)
  /-- Go to a label, always or if the popped word is zero. -/
  | branch (conditional : Bool) (target : Label)
  /-- Push the address of a static block. -/
  | staticAddress (block : BlockHandle)
deriving DecidableEq

/-- The opcode of the instruction. -/
def Emission.opcode : Emission → Opcode
  | .plain opcode => opcode
  | .immediate _ => .loadImmediate
  | .localAddress _ => .loadLocalAddress
  | .branch true _ => .branchIfFalse
  | .branch false _ => .branch
  | .staticAddress _ => .loadStaticAddress

/-- Bytes of the instruction, whatever its operand will be. -/
def Emission.length (emission : Emission) : Nat :=
  emission.opcode.encodedLength

/-- The data of a static block, and the identifier that names it. -/
structure BlockData where
  data : Bytes
  identifier : Option Identifier := none
deriving DecidableEq, Repr

/-- A function in the making. -/
structure Builder where
  name : String
  /-- The sizes of the locals, in order of their indices. -/
  localSizes : List Nat := []
  emissions : Array Emission := #[]
  /-- For each label the number of instructions before it, once it is set. -/
  labels : Array (Option Nat) := #[]
  blocks : Array BlockData := #[]
deriving DecidableEq

/-- The builder with other local sizes. -/
def Builder.setLocalSizes (builder : Builder) (sizes : List Nat) : Builder :=
  { builder with localSizes := sizes }

/-- A label that is not set yet. -/
def Builder.createLabel (builder : Builder) : Label × Builder :=
  (⟨UInt32.ofNat builder.labels.size⟩, { builder with labels := builder.labels.push none })

/-- Sets a label to the position of the next instruction. -/
def Builder.setLabel (builder : Builder) (label : Label) : Except AssemblyError Builder :=
  match builder.labels[label.index.toNat]? with
  | none => .error (.unknownHandle .label label.index)
  | some (some _) => .error (.labelAlreadySet label.index)
  | some none =>
    .ok { builder with labels := builder.labels.setIfInBounds label.index.toNat (some builder.emissions.size) }

/-- Adds a static block. -/
def Builder.defineBlock (builder : Builder) (block : BlockData) : BlockHandle × Builder :=
  (⟨UInt32.ofNat builder.blocks.size⟩, { builder with blocks := builder.blocks.push block })

/-- Adds an instruction. -/
def Builder.emit (builder : Builder) (emission : Emission) : Builder :=
  { builder with emissions := builder.emissions.push emission }

/-- Adds an instruction that pushes the address of a variable's slot. -/
def Builder.emitSource (builder : Builder) (source : ValueSource) : Builder :=
  builder.emit (.localAddress source.slotIndex)

end StackMachine
