import StackMachine.Assembly.Error
import StackMachine.Bytes.Word

/-!
# Places of variables

Each variable gets a slot of its own in the frame, of the size of its type, or stands for the address of another
variable's slot.  Slots are handed out in the order in which they are asked for and never given back.
-/

namespace StackMachine

/-- Bytes of an address. -/
def pointerSize : Nat := wordSize

/-- Bytes of a value of the given type in the frame. -/
def DataType.size : DataType → Except AssemblyError Nat
  | .reference _ .stringSlice => .ok (pointerSize + wordSize)
  | .reference _ _ => .ok pointerSize
  | .option inner => do
    let size ← inner.size
    return wordSize + size
  | .int32 | .boolean => .ok wordSize
  | .string => .ok (pointerSize + wordSize)
  | .iterator _ => .ok (2 * wordSize)
  | type => .error (.unsupportedType type)

/-- Where a variable's value is found. -/
inductive ValueSource where
  /-- In a slot of its own. -/
  | slot (index : UInt8) (size : Nat)
  /-- The value is the address of another variable's slot. -/
  | reference (referenced : UInt8)
deriving DecidableEq, Repr

/-- The slot whose address is loaded for a variable. -/
def ValueSource.slotIndex : ValueSource → UInt8
  | .slot index _ => index
  | .reference referenced => referenced

/-- What a variable asks for. -/
inductive AllocationKind where
  /-- A slot for a value of the type. -/
  | ofType (type : DataType)
  /-- To stand for the address of another variable's slot. -/
  | referenceTo (id : VariableId)
deriving Repr

/-- A variable with what it asks for. -/
structure Variable where
  id : VariableId
  kind : AllocationKind
deriving Repr

/-- The places handed out so far. -/
structure Allocator where
  /-- The variables that have a place, the latest first. -/
  sources : List (VariableId × ValueSource) := []
  /-- The sizes of the slots, in order of their indices. -/
  localSizes : List Nat := []
deriving DecidableEq, Repr

/-- The place of a variable. -/
def Allocator.source? (allocator : Allocator) (id : VariableId) : Option ValueSource :=
  allocator.sources.lookup id

/-- The allocator with one more variable in a slot of the given size. -/
def Allocator.addSlot (allocator : Allocator) (id : VariableId) (size : Nat) : ValueSource × Allocator :=
  let source := .slot (UInt8.ofNat allocator.localSizes.length) size
  (source, ⟨(id, source) :: allocator.sources, allocator.localSizes ++ [size]⟩)

/-- The allocator with one more variable that stands for a slot's address. -/
def Allocator.addReference (allocator : Allocator) (id : VariableId) (referenced : UInt8) :
    ValueSource × Allocator :=
  let source := .reference referenced
  (source, ⟨(id, source) :: allocator.sources, allocator.localSizes⟩)

/-- Gives the variable the next slot, with the size of the type. -/
def Allocator.allocateSlot (allocator : Allocator) (id : VariableId) (type : DataType) :
    Except AssemblyError (ValueSource × Allocator) :=
  match allocator.source? id with
  | some _ => .error (.alreadyAllocated id)
  | none =>
    match type.size with
    | .error e => .error e
    | .ok size =>
      if allocator.localSizes.length < maxLocals then .ok (allocator.addSlot id size)
      else .error (.limitExceeded .noIndexLeft)

/-- Makes the variable stand for the address of another variable's slot. -/
def Allocator.allocateReference (allocator : Allocator) (id referenced : VariableId) :
    Except AssemblyError (ValueSource × Allocator) :=
  match allocator.source? id with
  | some _ => .error (.alreadyAllocated id)
  | none =>
    match allocator.source? referenced with
    | some (.slot index _) => .ok (allocator.addReference id index)
    | some (.reference _) => .error (.notAddressable referenced)
    | none => .error (.unallocatedVariable referenced)

/-- Gives a variable what it asks for. -/
def Allocator.allocate (allocator : Allocator) (request : Variable) :
    Except AssemblyError (ValueSource × Allocator) :=
  match request.kind with
  | .ofType type => allocator.allocateSlot request.id type
  | .referenceTo referenced => allocator.allocateReference request.id referenced

/-- Gives variables what they ask for, one after the other, up to the first that does not get it; the variables before it
keep their places. -/
def Allocator.allocateAll (allocator : Allocator) :
    List Variable → Except AssemblyError (List ValueSource) × Allocator
  | [] => (.ok [], allocator)
  | first :: rest =>
    match allocator.allocate first with
    | .error e => (.error e, allocator)
    | .ok (source, allocator) =>
      let (sources, allocator) := Allocator.allocateAll allocator rest
      (sources.map (source :: ·), allocator)

end StackMachine
