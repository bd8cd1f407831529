import StackMachine.Link.Error
import StackMachine.Machine.Run

/-!
# Images

An image is memory with the static blocks in it, the functions with the addresses of those blocks in their code, and the
places of the blocks that have identifiers.  Running a function changes memory and nothing else of the image.
-/

namespace StackMachine

/-- The place of a static block in memory. -/
structure Location where
  address : Nat
  length : Nat
deriving DecidableEq, Repr

/-- Linked functions and the memory that they run in. -/
structure Image where
  config : Config
  memory : Memory
  functions : List Function
  /-- The places of the static blocks that have identifiers, in order of placement. -/
  locations : List (Identifier × Location)
deriving DecidableEq, Repr

/-- The function with the given name. -/
def Image.function? (image : Image) (name : String) : Option Function :=
  image.functions.find? fun f => f.name == name

/-- The place of the static block placed last under an identifier. -/
def Image.location? (image : Image) (identifier : Identifier) : Option Location :=
  (image.locations.reverse.find? fun entry => entry.1.same identifier).map Prod.snd

/-- The bytes that stand now at the place of a static block. -/
def Image.readStaticData (image : Image) (identifier : Identifier) : Except MachineError (List UInt8) :=
  match image.location? identifier with
  | some location => .ok (image.memory.bytes.slice location.address location.length)
  | none => .error (.unknownStaticData identifier)

/-- The image with the memory that a run has left. -/
def Image.withMemory (image : Image) (memory : Memory) : Image :=
  { image with memory }

/-- What has become of running a function. -/
structure Execution where
  result : Except MachineError Summary
  image : Image
  /-- All lines given out, those before the run included. -/
  output : Array String

/-- The execution that a run amounts to, once the run has ended. -/
def Run.execution? (image : Image) : Run → Option Execution
  | .running _ _ => none
  | .returned s => some ⟨.ok s.summary, image.withMemory s.memory, s.output⟩
  | .trapped trap s => some ⟨.error (.trap trap), image.withMemory s.memory, s.output⟩

/-- Runs a function, if its run ends within the given number of rounds. -/
def Image.execute? (image : Image) (rounds : Nat) (name : String) (output : Array String) : Option Execution :=
  match image.function? name with
  | none => some ⟨.error (.unknownFunction name), image, output⟩
  | some f =>
    Run.execution? image <|
      Run.advance f image.config.instructionLimit rounds (Run.start f image.memory output)

end StackMachine
