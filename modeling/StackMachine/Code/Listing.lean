import StackMachine.Code.Instruction

/-!
# Decoding a whole code

The instructions of a code are read one after the other from its start.  The sweep ends at the end of the code or at the
first offset where no instruction can be read.  A listing has one line for each instruction.
-/

namespace StackMachine

/-- The result of a sweep: the instructions with their offsets, and why the sweep stopped early, if it did. -/
structure Decoding where
  instructions : List (Nat × Instruction)
  failure : Option CodeError
deriving DecidableEq, Repr

/-- The sweep from an offset on. -/
def Decoding.sweep (code : Bytes) (offset : Nat) : Decoding :=
  if offset < code.size then
    match Instruction.decodeAt code offset with
    | .error e => ⟨[], some e⟩
    | .ok i =>
      let rest := Decoding.sweep code (offset + i.length)
      ⟨(offset, i) :: rest.instructions, rest.failure⟩
  else ⟨[], none⟩
termination_by code.size - offset
decreasing_by
  have := i.length_pos
  omega

/-- The instructions of a code, from its start. -/
def decode (code : Bytes) : Decoding :=
  Decoding.sweep code 0

/-- All instructions, or why not all could be read. -/
def Decoding.toExcept (decoding : Decoding) : Except CodeError (List (Nat × Instruction)) :=
  match decoding.failure with
  | some e => .error e
  | none => .ok decoding.instructions

/-- One line of a listing. -/
def listingLine (offset : Nat) (i : Instruction) : String :=
  zeroPadded 4 offset ++ ": " ++ i.text ++ "\n"

/-- The listing of a code, one line for each instruction. -/
def listing (code : Bytes) : Except CodeError String := do
  let instructions ← (decode code).toExcept
  return String.join (instructions.map fun entry => listingLine entry.1 entry.2)

end StackMachine
