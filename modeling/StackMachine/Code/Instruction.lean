import StackMachine.Code.Error
import StackMachine.Code.Opcode

/-!
# Instructions

An instruction is an opcode with an operand.  Encoding writes the opcode's byte and then the operand; decoding reads the
operand of the kind that the opcode asks for.  An instruction is well formed if its operand is of that kind: then its
encoding has the length that the opcode announces (`Instruction.length_encode`), and what decoding returns is always well
formed (`Instruction.wellFormed_of_decodeAt`).
-/

namespace StackMachine

/-- The operand of an instruction. -/
inductive Operand where
  | none
  | localIndex (index : UInt8)
  | immediate (value : Word)
  | codeAddress (target : Word)
  | dataAddress (address : Word)
deriving DecidableEq, Repr

/-- The kind of an operand. -/
def Operand.kind : Operand → OperandKind
  | .none => .none
  | .localIndex _ => .localIndex
  | .immediate _ => .immediate
  | .codeAddress _ => .codeAddress
  | .dataAddress _ => .dataAddress

/-- The bytes of an operand. -/
def Operand.encode : Operand → List UInt8
  | .none => []
  | .localIndex index => [index]
  | .immediate word | .codeAddress word | .dataAddress word => Word.toBytes word

/-- The operand of the given kind at an index of the code, if the code does not end before it does. -/
def Operand.read? (kind : OperandKind) (code : Bytes) (index : Nat) : Option Operand :=
  match kind with
  | .none => some .none
  | .localIndex => code[index]?.map .localIndex
  | .immediate => (code.readWord? index).map .immediate
  | .codeAddress => (code.readWord? index).map .codeAddress
  | .dataAddress => (code.readWord? index).map .dataAddress

/-- An opcode with an operand. -/
structure Instruction where
  opcode : Opcode
  operand : Operand
deriving DecidableEq, Repr

/-- The instruction that consists of an opcode alone. -/
def Instruction.plain (opcode : Opcode) : Instruction :=
  ⟨opcode, .none⟩

/-- The operand is of the kind that the opcode asks for. -/
def Instruction.WellFormed (i : Instruction) : Prop :=
  i.operand.kind = i.opcode.operandKind

instance (i : Instruction) : Decidable i.WellFormed :=
  inferInstanceAs (Decidable (_ = _))

/-- The bytes of an instruction. -/
def Instruction.encode (i : Instruction) : List UInt8 :=
  i.opcode.byte :: i.operand.encode

/-- The length that the opcode announces. -/
def Instruction.length (i : Instruction) : Nat :=
  i.opcode.encodedLength

/-- The text of an instruction in a listing. -/
def Instruction.text (i : Instruction) : String :=
  i.opcode.mnemonic ++
    match i.operand with
    | .none => ""
    | .localIndex index => s!" local[{index.toNat}]"
    | .immediate value => " " ++ decimal value.toInt
    | .codeAddress target => " @" ++ zeroPaddedInt 4 target.toInt
    | .dataAddress address => " &" ++ decimal address.toInt

/-- The instruction that starts at an offset of the code. -/
def Instruction.decodeAt (code : Bytes) (offset : Nat) : Except CodeError Instruction :=
  match code[offset]? with
  | none => .error (.truncatedInstruction offset)
  | some byte =>
    match Opcode.ofByte? byte with
    | none => .error (.invalidOpcode offset byte)
    | some opcode =>
      match Operand.read? opcode.operandKind code (offset + 1) with
      | none => .error (.truncatedInstruction offset)
      | some operand => .ok ⟨opcode, operand⟩

@[simp] theorem Operand.length_encode (operand : Operand) : operand.encode.length = operand.kind.size := by
  cases operand <;> simp [Operand.encode, Operand.kind, OperandKind.size]

theorem Operand.kind_of_read? {kind : OperandKind} {code : Bytes} {index : Nat} {operand : Operand}
    (h : Operand.read? kind code index = some operand) : operand.kind = kind := by
  cases kind <;> simp only [Operand.read?, Option.map_eq_some_iff, Option.some.injEq] at h
  case none => cases h; rfl
  all_goals
    obtain ⟨_, _, rfl⟩ := h
    rfl

theorem Instruction.length_pos (i : Instruction) : 0 < i.length :=
  i.opcode.encodedLength_pos

theorem Instruction.length_encode {i : Instruction} (h : i.WellFormed) : i.encode.length = i.length := by
  rw [Instruction.encode, List.length_cons, Operand.length_encode, h]
  unfold Instruction.length Opcode.encodedLength
  omega

theorem Instruction.wellFormed_of_decodeAt {code : Bytes} {offset : Nat} {i : Instruction}
    (h : Instruction.decodeAt code offset = .ok i) : i.WellFormed := by
  unfold Instruction.decodeAt at h
  split at h
  · cases h
  · split at h
    · cases h
    · split at h
      · cases h
      · rename_i operand hread
        cases h
        exact Operand.kind_of_read? hread

/-- What is decoded lies inside the code. -/
theorem Instruction.lt_size_of_decodeAt {code : Bytes} {offset : Nat} {i : Instruction}
    (h : Instruction.decodeAt code offset = .ok i) : offset < code.size := by
  unfold Instruction.decodeAt at h
  split at h
  · cases h
  · rename_i byte hbyte
    exact (Array.getElem?_eq_some_iff.1 hbyte).1

end StackMachine
