import StackMachine.Function.Relocation
import StackMachine.Function.Verification
import StackMachine.Link.Image
import StackMachine.Link.Registry

/-!
# Loading and linking

A loader accepts verified functions and keeps account of the room that their static blocks take.  Linking lays the blocks
one after the other, in the order of the functions' names and of the blocks in each function, and writes the address of each
into the code that loads it.

The account is kept in a 64-bit register: `Loader.load?` computes it there, and gives nothing where `Loader.load` would
need a greater number.
-/

namespace StackMachine

/-- Functions to be linked. -/
structure Loader where
  config : Config := {}
  registry : Registry := .empty
  /-- Bytes that the static blocks of the functions take. -/
  staticDataSize : Nat := 0

/-- A loader without functions, if the configuration is accepted. -/
def Loader.ofConfig (config : Config) : Except MachineError Loader :=
  match config.validate with
  | .ok () => .ok { config }
  | .error flaw => .error (.invalidConfig flaw)

/-- Bytes that the static blocks of a function take under the loader's configuration. -/
def Loader.footprint (loader : Loader) (f : Function) : Nat :=
  f.footprint loader.config.staticDataAlignment.toNat

/-- The loader with a function added, instead of the one of the same name. -/
def Loader.register (loader : Loader) (f : Function) : Loader :=
  let displaced := loader.registry.find? f.name
  { loader with
    registry := loader.registry.insert f
    staticDataSize := loader.staticDataSize + loader.footprint f - (displaced.map loader.footprint).getD 0 }

/-- Why a function is not loaded. -/
def Function.loadError? (f : Function) : Option CodeError :=
  if f.patched then some (.alreadyPatched f.name)
  else
    match f.verify with
    | .error e => some e
    | .ok () => none

/-- Loads a function, and gives the one that it replaces. -/
def Loader.load (loader : Loader) (f : Function) : Except MachineError (Option Function) × Loader :=
  match f.loadError? with
  | some e => (.error (.code e), loader)
  | none => (.ok (loader.registry.find? f.name), loader.register f)

/-- Loads a function, if the sizes that are added up for it fit 64-bit registers. -/
def Loader.load? (loader : Loader) (f : Function) : Option (Except MachineError (Option Function) × Loader) :=
  match f.loadError? with
  | some e => some (.error (.code e), loader)
  | none => do
    let footprint ← f.footprint? loader.config.staticDataAlignment.toNat
    let grown ← Size.add? loader.staticDataSize footprint
    let displaced := loader.registry.find? f.name
    let freed ← (displaced.mapM fun g => g.footprint? loader.config.staticDataAlignment.toNat)
    return (.ok displaced,
      { loader with registry := loader.registry.insert f, staticDataSize := grown - freed.getD 0 })

/-! ### Placement -/

/-- The addresses of blocks laid one after the other from `start` on. -/
def blockAddresses (alignment start : Nat) : List Block → List Nat
  | [] => []
  | block :: blocks => start :: blockAddresses alignment (start + block.slotSize alignment) blocks

/-- Functions with the addresses of their blocks, laid one after the other from `start` on. -/
def placeFunctions (alignment start : Nat) : List Function → List (Function × List Nat)
  | [] => []
  | f :: fs =>
    (f, blockAddresses alignment start f.staticData) :: placeFunctions alignment (start + f.footprint alignment) fs

/-- The functions of the loader with the addresses of their blocks. -/
def Loader.placed (loader : Loader) : List (Function × List Nat) :=
  placeFunctions loader.config.staticDataAlignment.toNat 0 loader.registry.functions

/-- Every block with its address, in order of placement. -/
def Loader.placements (loader : Loader) : List (Block × Nat) :=
  loader.placed.flatMap fun (f, addresses) => f.staticData.zip addresses

/-- The places of the blocks that have identifiers. -/
def Loader.locations (loader : Loader) : List (Identifier × Location) :=
  loader.placements.filterMap fun (block, address) =>
    block.identifier.map fun identifier => (identifier, ⟨address, block.data.size⟩)

/-- The layout of an image of the given size. -/
def Loader.layout (loader : Loader) (total : Nat) : Layout :=
  let stack := loader.config.stackSize.toNat
  let heap := loader.config.heapSize.toNat
  .ofSizes (total - stack - heap) stack heap

/-- Memory with the static blocks in it. -/
def Loader.memory (loader : Loader) (layout : Layout) : Memory :=
  loader.placements.foldl (fun memory (block, address) => memory.overwrite address block.data.toList)
    (Memory.zeros layout)

/-- The functions with the addresses of the blocks in their code. -/
def Loader.relocated (loader : Loader) : Except CodeError (List Function) :=
  loader.placed.mapM fun (f, addresses) => f.relocate (addresses.map Int32.ofNat)

/-- The image of the loaded functions. -/
def Loader.link (loader : Loader) : Except MachineError Image :=
  match loader.config.imageSize loader.staticDataSize with
  | .error flaw => .error (.invalidConfig flaw)
  | .ok total =>
    match loader.relocated with
    | .error e => .error (.code e)
    | .ok functions =>
      .ok { config := loader.config, memory := loader.memory (loader.layout total), functions,
            locations := loader.locations }

end StackMachine
