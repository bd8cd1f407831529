import StackMachine.Code.Listing
import StackMachine.Function.Basic

/-!
# Relocation

Relocating a function writes the address of each static block into every instruction that is recorded to load it.  All
conditions are checked before the first write, so a function that cannot be relocated is left as it was; one that was
relocated is not relocated again.
-/

namespace StackMachine

/-- The first recorded load whose operand would not lie inside the code, with the number of its block. -/
def Function.danglingLoad? (f : Function) : Option (Nat × Nat) :=
  f.loadSites.find? fun site => f.code.size < site.2 + Opcode.loadStaticAddress.encodedLength

/-- Where to write which address, in order of blocks. -/
def Function.relocations (f : Function) (addresses : List Word) : List (Nat × Word) :=
  (f.staticData.zip addresses).flatMap fun (block, address) =>
    block.loadOffsets.map fun offset => (offset.toNat, address)

/-- Writes an address behind the opcode at an offset. -/
def writeAddress (code : Bytes) (relocation : Nat × Word) : Bytes :=
  code.overwrite (relocation.1 + 1) (Word.toBytes relocation.2)

/-- The function with the address of each static block in its code. -/
def Function.relocate (f : Function) (addresses : List Word) : Except CodeError Function :=
  if f.patched then .error (.alreadyPatched f.name)
  else if addresses.length ≠ f.staticData.length then
    .error (.patchCountMismatch f.name f.staticData.length addresses.length)
  else
    match f.danglingLoad? with
    | some (block, offset) => .error (.danglingStaticLoad block offset)
    | none => .ok { f with code := (f.relocations addresses).foldl writeAddress f.code, patched := true }

end StackMachine
