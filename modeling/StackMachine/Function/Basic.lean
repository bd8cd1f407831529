import StackMachine.Bytes.Basic
import StackMachine.Function.Identifier
import StackMachine.Size

/-!
# Functions

A function has a name, the offsets of its locals in its frame and the frame's size, its code, and static blocks of data.
A block lists the offsets in the code at which its address is loaded; the addresses become known when the blocks are placed
in memory, and are then written into the code once.
-/

namespace StackMachine

/-- A block of static data. -/
structure Block where
  data : Bytes
  /-- Offsets of the instructions that load the block's address. -/
  loadOffsets : List UInt64
  identifier : Option Identifier
deriving DecidableEq, Repr

/-- Code with the layout of its frame and its static blocks. -/
structure Function where
  name : String
  /-- Where each local starts in the frame. -/
  localOffsets : List UInt32
  /-- Bytes of the frame. -/
  localSize : UInt32
  code : Bytes
  staticData : List Block
  /-- Whether the addresses of the static blocks stand in the code. -/
  patched : Bool := false
deriving DecidableEq, Repr

/-- Whether two blocks agree up to the labels of their identifiers. -/
def Block.same (a b : Block) : Bool :=
  a.data == b.data && a.loadOffsets == b.loadOffsets &&
    match a.identifier, b.identifier with
    | some x, some y => x.same y
    | none, none => true
    | _, _ => false

/-- Whether two functions agree up to the labels of identifiers. -/
def Function.same (f g : Function) : Bool :=
  f.name == g.name && f.localOffsets == g.localOffsets && f.localSize == g.localSize && f.code == g.code &&
    f.patched == g.patched && f.staticData.length == g.staticData.length &&
    (f.staticData.zip g.staticData).all fun (a, b) => a.same b

/-- Bytes that a block takes in memory: an empty block takes a slot too. -/
def Block.slotSize (block : Block) (alignment : Nat) : Nat :=
  roundUp (max 1 block.data.size) alignment

/-- Bytes that the static blocks of a function take in memory. -/
def Function.footprint (f : Function) (alignment : Nat) : Nat :=
  Size.total (f.staticData.map fun block => block.slotSize alignment)

/-- Bytes that a block takes in memory, if they fit a 64-bit register. -/
def Block.slotSize? (block : Block) (alignment : Nat) : Option Nat :=
  Size.roundUp? (max 1 block.data.size) alignment

/-- Bytes that the static blocks of a function take in memory, if they fit a 64-bit register. -/
def Function.footprint? (f : Function) (alignment : Nat) : Option Nat := do
  let sizes ← f.staticData.mapM fun block => block.slotSize? alignment
  Size.total? sizes

/-- Every recorded load of a static address, with the number of its block, in order of blocks. -/
def Function.loadSites (f : Function) : List (Nat × Nat) :=
  f.staticData.zipIdx.flatMap fun (block, k) => block.loadOffsets.map fun offset => (k, offset.toNat)

end StackMachine
