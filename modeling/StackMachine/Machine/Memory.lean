import StackMachine.Machine.Fault

/-!
# Memory

Memory is one buffer with three regions: static data, the stack with the frame at its start, and the heap.  Addresses and
lengths are words.  An access names a stretch of memory; it succeeds exactly if address and length are not negative and the
stretch ends inside the buffer (`Memory.Holds`), and nothing is written otherwise.
-/

namespace StackMachine

/-- Where the stack and the heap start, and where memory stops. -/
structure Layout where
  stackStart : Nat
  heapStart : Nat
  stop : Nat
deriving DecidableEq, Repr

/-- The regions one after the other, with the given sizes. -/
def Layout.ofSizes (data stack heap : Nat) : Layout :=
  ⟨data, data + stack, data + stack + heap⟩

/-- Bytes of the region for static data. -/
def Layout.dataSize (layout : Layout) : Nat := layout.stackStart

/-- Bytes of the stack region. -/
def Layout.stackSize (layout : Layout) : Nat := layout.heapStart - layout.stackStart

/-- Bytes of the heap region. -/
def Layout.heapSize (layout : Layout) : Nat := layout.stop - layout.heapStart

/-- A buffer and its regions. -/
structure Memory where
  bytes : Bytes
  layout : Layout
deriving DecidableEq, Repr

/-- Memory of zeros. -/
def Memory.zeros (layout : Layout) : Memory :=
  ⟨Bytes.zeros layout.stop, layout⟩

/-- The stretch of `length` bytes at `address` lies inside memory. -/
def Memory.Holds (memory : Memory) (address length : Word) : Prop :=
  0 ≤ address.toInt ∧ 0 ≤ length.toInt ∧ address.toInt + length.toInt ≤ memory.bytes.size

instance (memory : Memory) (address length : Word) : Decidable (memory.Holds address length) :=
  inferInstanceAs (Decidable (_ ∧ _ ∧ _))

/-- The index of the byte at an address that is not negative. -/
def Word.index (address : Word) : Nat :=
  address.toInt.toNat

/-- The length of a word, as a word. -/
def wordLength : Word := 4

/-- Fails unless a stretch lies inside memory. -/
def Memory.check (memory : Memory) (address length : Word) : Except Fault Unit :=
  if memory.Holds address length then .ok () else .error (.memoryOutOfBounds address length)

/-- The bytes of a stretch of memory. -/
def Memory.slice (memory : Memory) (address length : Word) : Except Fault (List UInt8) := do
  memory.check address length
  return memory.bytes.slice (Word.index address) (Word.index length)

/-- The word at an address. -/
def Memory.load (memory : Memory) (address : Word) : Except Fault Word := do
  let bytes ← memory.slice address wordLength
  return Word.ofBytes bytes

/-- Memory with other bytes. -/
def Memory.overwrite (memory : Memory) (offset : Nat) (values : List UInt8) : Memory :=
  { memory with bytes := memory.bytes.overwrite offset values }

/-- Memory with a word put at an address, where it has to fit. -/
def Memory.put (memory : Memory) (address value : Word) : Memory :=
  memory.overwrite (Word.index address) (Word.toBytes value)

/-- Memory with a word stored at an address. -/
def Memory.store (memory : Memory) (address value : Word) : Except Fault Memory := do
  memory.check address wordLength
  return memory.put address value

/-- Fails unless both stretches of a copy lie inside memory; the source is looked at first. -/
def Memory.checkCopy (memory : Memory) (source target length : Word) : Except Fault Unit := do
  memory.check source length
  memory.check target length

/-- Memory with the bytes at `source` put at `target`, where both stretches have to fit. -/
def Memory.move (memory : Memory) (source target length : Word) : Memory :=
  memory.overwrite (Word.index target) (memory.bytes.slice (Word.index source) (Word.index length))

/-- Memory with a stretch of bytes copied; the stretches may overlap. -/
def Memory.copy (memory : Memory) (source target length : Word) : Except Fault Memory := do
  memory.checkCopy source target length
  return memory.move source target length

@[simp] theorem Memory.layout_overwrite (memory : Memory) (offset : Nat) (values : List UInt8) :
    (memory.overwrite offset values).layout = memory.layout := rfl

@[simp] theorem Memory.size_overwrite (memory : Memory) (offset : Nat) (values : List UInt8) :
    (memory.overwrite offset values).bytes.size = memory.bytes.size :=
  Bytes.size_overwrite _ _ _

end StackMachine
