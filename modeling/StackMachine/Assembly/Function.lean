import StackMachine.Assembly.Builder
import StackMachine.Function.Verification

/-!
# Assembling a function

The length of each instruction is known before its operand, so the offset of an instruction is the sum of the lengths
before it.  All offsets are summed up once and then looked up (`Builder.lookUpOffset_offsets`).  A branch gets the offset
of its label's position, a static load the number of its block, and each block the offsets of the loads that name it.  The
frame holds the locals one after the other.  The function is verified before it is handed out.
-/

namespace StackMachine

/-- The offset of the instruction at a position. -/
def Builder.offsetOf (builder : Builder) (position : Nat) : Nat :=
  Size.total ((builder.emissions.toList.take position).map Emission.length)

/-- Running sums from `start` on: the sum before each number, and the sum behind the last. -/
def runningSums (start : Nat) : List Nat → List Nat
  | [] => [start]
  | n :: rest => start :: runningSums (start + n) rest

/-- The offsets of all positions, that behind the last instruction included. -/
def Builder.offsets (builder : Builder) : Array Nat :=
  (runningSums 0 (builder.emissions.toList.map Emission.length)).toArray

/-- Looks up the offset of a position among all offsets; behind the last instruction the code ends. -/
def Builder.lookUpOffset (builder : Builder) (offsets : Array Nat) (position : Nat) : Nat :=
  offsets.getD (min position builder.emissions.size) 0

/-- The length of the whole code. -/
def Builder.codeLength (builder : Builder) : Nat :=
  Size.total (builder.emissions.toList.map Emission.length)

/-- Why a branch leads nowhere. -/
def Builder.branchFault? (builder : Builder) : Emission → Option AssemblyError
  | .branch _ label =>
    match builder.labels[label.index.toNat]? with
    | none => some (.unknownHandle .label label.index)
    | some none => some (.unsetLabel label.index)
    | some (some _) => none
  | _ => none

/-- Why a static load has no block. -/
def Builder.blockFault? (builder : Builder) : Emission → Option AssemblyError
  | .staticAddress block =>
    if block.index.toNat < builder.blocks.size then none else some (.unknownHandle .staticData block.index)
  | _ => none

/-- The first branch that leads nowhere, or else the first static load that has no block. -/
def Builder.handleFault? (builder : Builder) : Option AssemblyError :=
  (builder.emissions.toList.findSome? builder.branchFault?).or
    (builder.emissions.toList.findSome? builder.blockFault?)

/-- The offset that a label stands for, or zero without one. -/
def Builder.labelOffset (builder : Builder) (offsetOf : Nat → Nat) (label : Label) : Nat :=
  match builder.labels[label.index.toNat]? with
  | some (some position) => offsetOf position
  | _ => 0

/-- The instruction with its operand. -/
def Builder.instruction (builder : Builder) (offsetOf : Nat → Nat) (emission : Emission) : Instruction :=
  { opcode := emission.opcode
    operand :=
      match emission with
      | .plain _ => .none
      | .immediate value => .immediate value
      | .localAddress index => .localIndex index
      | .branch _ label => .codeAddress (Int32.ofNat (builder.labelOffset offsetOf label))
      | .staticAddress block => .dataAddress block.index.toInt32 }

/-- The code of the function. -/
def Builder.code (builder : Builder) : Bytes :=
  let offsets := builder.offsets
  (builder.emissions.toList.flatMap fun emission =>
    (builder.instruction (builder.lookUpOffset offsets) emission).encode).toArray

/-- The offsets of the static loads that name the block with the given number. -/
def Builder.loadOffsets (builder : Builder) (offsetOf : Nat → Nat) (block : Nat) : List UInt64 :=
  builder.emissions.toList.zipIdx.filterMap fun (emission, position) =>
    match emission with
    | .staticAddress handle =>
      if handle.index.toNat = block then some (UInt64.ofNat (offsetOf position)) else none
    | _ => none

/-- The static blocks of the function. -/
def Builder.staticData (builder : Builder) : List Block :=
  let offsets := builder.offsets
  builder.blocks.toList.zipIdx.map fun (block, k) =>
    ⟨block.data, builder.loadOffsets (builder.lookUpOffset offsets) k, block.identifier⟩

/-- The offsets of locals that start at `start`, and their end, if it is an address. -/
def layOutLocals? (start : Nat) : List Nat → Option (List UInt32 × UInt32)
  | [] => some ([], UInt32.ofNat start)
  | size :: sizes =>
    if start + size ≤ maxWord then
      (layOutLocals? (start + size) sizes).map fun (offsets, total) => (UInt32.ofNat start :: offsets, total)
    else none

/-- The offsets of the locals in the frame, and the size of the frame. -/
def layOutFrame (sizes : List Nat) : Except AssemblyError (List UInt32 × UInt32) :=
  if maxLocals < sizes.length then .error (.limitExceeded (.tooManyLocals sizes.length))
  else
    match layOutLocals? 0 sizes with
    | some frame => .ok frame
    | none => .error (.limitExceeded .frameTooLarge)

/-- The function that the builder describes. -/
def Builder.assemble (builder : Builder) : Except AssemblyError Function :=
  if maxWord < builder.codeLength then .error (.limitExceeded (.codeTooLong builder.codeLength))
  else
    match builder.handleFault? with
    | some e => .error e
    | none =>
      match layOutFrame builder.localSizes with
      | .error e => .error e
      | .ok (localOffsets, localSize) =>
        let f : Function :=
          { name := builder.name, localOffsets, localSize, code := builder.code, staticData := builder.staticData }
        match f.verify with
        | .error e => .error (.verification e)
        | .ok () => .ok f

/-! ### Offsets that are looked up -/

theorem getElem?_runningSums (start : Nat) (ns : List Nat) (k : Nat) :
    (runningSums start ns)[k]? = if k ≤ ns.length then some (start + Size.total (ns.take k)) else none := by
  induction ns generalizing start k with
  | nil => cases k <;> simp [runningSums]
  | cons n rest ih =>
    cases k with
    | zero => simp [runningSums]
    | succ k =>
      simp only [runningSums, List.getElem?_cons_succ, ih, List.length_cons, List.take_succ_cons, Size.total_cons]
      by_cases h : k ≤ rest.length
      · rw [if_pos h, if_pos (by omega), Nat.add_assoc]
      · rw [if_neg h, if_neg (by omega)]

/-- What is looked up is the sum of the lengths before the position. -/
theorem Builder.lookUpOffset_offsets (builder : Builder) :
    builder.lookUpOffset builder.offsets = builder.offsetOf := by
  funext position
  have hlen : (builder.emissions.toList.map Emission.length).length = builder.emissions.size := by simp
  rw [Builder.lookUpOffset, Builder.offsets, Array.getD_eq_getD_getElem?, List.getElem?_toArray,
    getElem?_runningSums, if_pos (by omega), Option.getD_some, Nat.zero_add, Builder.offsetOf, List.map_take]
  congr 1
  rw [← hlen, List.take_eq_take_iff]
  omega

theorem Builder.code_eq (builder : Builder) :
    builder.code =
      (builder.emissions.toList.flatMap fun emission =>
        (builder.instruction builder.offsetOf emission).encode).toArray := by
  rw [Builder.code, Builder.lookUpOffset_offsets]

theorem Builder.staticData_eq (builder : Builder) :
    builder.staticData =
      builder.blocks.toList.zipIdx.map fun (block, k) =>
        ⟨block.data, builder.loadOffsets builder.offsetOf k, block.identifier⟩ := by
  rw [Builder.staticData, Builder.lookUpOffset_offsets]

end StackMachine
