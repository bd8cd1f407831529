import StackMachine.Code.Listing
import StackMachine.Function.Basic

/-!
# Verification

A function is accepted if its local offsets describe a frame, its code is a sequence of instructions, every branch leads
to an instruction or to the end of the code, every local that is named exists, and every recorded load of a static address
is one.  These conditions are checked in this order, and the first that fails is reported.
-/

namespace StackMachine

/-- The first two neighbours of which the second is below the first. -/
def firstDecrease? : List UInt32 → Option (UInt32 × UInt32)
  | a :: b :: rest => if b < a then some (a, b) else firstDecrease? (b :: rest)
  | _ => none

/-- Why the local offsets do not describe a frame of the given size. -/
def frameFlaw? (offsets : List UInt32) (size : UInt32) : Option FrameFlaw :=
  if maxLocals < offsets.length then some (.tooManyLocals offsets.length)
  else if offsets.headD 0 ≠ 0 then some (.firstNotZero (offsets.headD 0))
  else
    match firstDecrease? offsets with
    | some (before, after) => some (.decreasing before after)
    | none =>
      match offsets.getLast? with
      | some last => if size < last then some (.outsideFrame last size) else none
      | none => if size ≠ 0 then some (.sizeWithoutLocals size) else none

/-- A branch may lead to the end of the code and to each of its instructions. -/
def isBranchTarget (code : Bytes) (instructions : List (Nat × Instruction)) (target : Int) : Bool :=
  target == code.size || instructions.any fun entry => (entry.1 : Int) == target

/-- What is wrong with a single instruction of a function. -/
def Function.instructionFault? (f : Function) (instructions : List (Nat × Instruction))
    (offset : Nat) (i : Instruction) : Option CodeError :=
  match i.operand with
  | .codeAddress target =>
    if isBranchTarget f.code instructions target.toInt then none else some (.invalidBranchTarget offset target)
  | .localIndex index =>
    if index.toNat < f.localOffsets.length then none
    else some (.localOutOfRange offset index f.localOffsets.length)
  | _ => none

/-- What is wrong with a recorded load of a static address. -/
def loadFault? (instructions : List (Nat × Instruction)) (block offset : Nat) : Option CodeError :=
  match instructions.lookup offset with
  | some i => if i.opcode = .loadStaticAddress then none else some (.danglingStaticLoad block offset)
  | none => some (.danglingStaticLoad block offset)

/-- The first fault among the instructions, or else among the recorded loads. -/
def Function.fault? (f : Function) (instructions : List (Nat × Instruction)) : Option CodeError :=
  (instructions.findSome? fun entry => f.instructionFault? instructions entry.1 entry.2).or
    (f.loadSites.findSome? fun site => loadFault? instructions site.1 site.2)

/-- Accepts a function, or says what is wrong with it. -/
def Function.verify (f : Function) : Except CodeError Unit :=
  match frameFlaw? f.localOffsets f.localSize with
  | some flaw => .error (.inconsistentFrame flaw)
  | none =>
    match (decode f.code).toExcept with
    | .error e => .error e
    | .ok instructions =>
      match f.fault? instructions with
      | some e => .error e
      | none => .ok ()

end StackMachine
