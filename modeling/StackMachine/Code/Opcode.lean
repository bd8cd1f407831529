import StackMachine.Bytes.Word

/-!
# Opcodes

The thirty opcodes of the machine.  Each has a byte, a mnemonic and a kind of operand that follows it in the code.
`Opcode.all` lists them in byte order, and `Opcode.ofByte?` inverts `Opcode.byte` (`Opcode.ofByte?_byte`,
`Opcode.byte_of_ofByte?`).
-/

namespace StackMachine

/-- What follows an opcode in the code. -/
inductive OperandKind where
  /-- Nothing. -/
  | none
  /-- The index of a local, in one byte. -/
  | localIndex
  /-- A constant, in one word. -/
  | immediate
  /-- An offset in the same code, in one word. -/
  | codeAddress
  /-- An address in memory, in one word. -/
  | dataAddress
deriving DecidableEq, Repr

/-- Bytes that the operand takes. -/
def OperandKind.size : OperandKind → Nat
  | .none => 0
  | .localIndex => 1
  | .immediate | .codeAddress | .dataAddress => wordSize

/-- Operations on two words whose result is a word. -/
inductive Arithmetic where
  | add | subtract | multiply | divide | and | or | xor
deriving DecidableEq, Repr

/-- Comparisons of two words. -/
inductive Comparison where
  | gt | gte | lt | lte | eq | neq
deriving DecidableEq, Repr

/-- What an instruction does. -/
inductive Opcode where
  /-- End the run. -/
  | ret
  /-- Go to a code offset. -/
  | branch
  /-- Go to a code offset if the popped word is zero. -/
  | branchIfFalse
  /-- Push a constant. -/
  | loadImmediate
  /-- Push the address of a local. -/
  | loadLocalAddress
  /-- Push the address of a static block. -/
  | loadStaticAddress
  /-- Store a number at an address. -/
  | storeInteger
  /-- Store an address at an address. -/
  | storePointer
  /-- Replace an address by the number stored there. -/
  | derefInteger
  /-- Replace an address by the address stored there. -/
  | derefPointer
  /-- Replace two words by the result of an operation. -/
  | arithmetic (operation : Arithmetic)
  /-- Replace two words by one or zero. -/
  | comparison (relation : Comparison)
  /-- Push the top word once more. -/
  | dup
  /-- Exchange the two top words. -/
  | swap
  /-- Exchange two stretches of memory. -/
  | exchangeBytes
  /-- Take a block of the heap. -/
  | alloc
  /-- Give out a stretch of memory as text. -/
  | outputString
  /-- Copy a stretch of memory. -/
  | copyBytes
  /-- Give out a word in decimal. -/
  | output
deriving DecidableEq, Repr

/-- Every opcode, in byte order. -/
def Opcode.all : List Opcode :=
  [.ret, .branch, .branchIfFalse,
   .loadImmediate, .loadLocalAddress, .loadStaticAddress,
   .storeInteger, .storePointer, .derefInteger, .derefPointer,
   .arithmetic .add, .arithmetic .subtract, .arithmetic .multiply, .arithmetic .divide,
   .arithmetic .and, .arithmetic .or, .arithmetic .xor,
   .comparison .gt, .comparison .gte, .comparison .lt, .comparison .lte, .comparison .eq, .comparison .neq,
   .dup, .swap,
   .exchangeBytes, .alloc, .outputString, .copyBytes, .output]

/-- The byte that stands for the opcode. -/
def Opcode.byte : Opcode → UInt8
  | .ret => 0x00
  | .branch => 0x01
  | .branchIfFalse => 0x02
  | .loadImmediate => 0x10
  | .loadLocalAddress => 0x11
  | .loadStaticAddress => 0x12
  | .storeInteger => 0x20
  | .storePointer => 0x21
  | .derefInteger => 0x30
  | .derefPointer => 0x31
  | .arithmetic .add => 0x40
  | .arithmetic .subtract => 0x41
  | .arithmetic .multiply => 0x42
  | .arithmetic .divide => 0x43
  | .arithmetic .and => 0x44
  | .arithmetic .or => 0x45
  | .arithmetic .xor => 0x46
  | .comparison .gt => 0x48
  | .comparison .gte => 0x49
  | .comparison .lt => 0x4A
  | .comparison .lte => 0x4B
  | .comparison .eq => 0x4C
  | .comparison .neq => 0x4D
  | .dup => 0x50
  | .swap => 0x51
  | .exchangeBytes => 0xFA
  | .alloc => 0xFB
  | .outputString => 0xFC
  | .copyBytes => 0xFD
  | .output => 0xFF

/-- The name of the opcode in listings and in JSON. -/
def Opcode.mnemonic : Opcode → String
  | .ret => "Ret"
  | .branch => "Branch"
  | .branchIfFalse => "BranchIfFalse"
  | .loadImmediate => "LoadIntegerImmediate"
  | .loadLocalAddress => "LoadLocalAddress"
  | .loadStaticAddress => "LoadStaticAddress"
  | .storeInteger => "StoreInteger"
  | .storePointer => "StorePointer"
  | .derefInteger => "DerefInteger"
  | .derefPointer => "DerefPointer"
  | .arithmetic .add => "Add"
  | .arithmetic .subtract => "Subtract"
  | .arithmetic .multiply => "Multiply"
  | .arithmetic .divide => "Divide"
  | .arithmetic .and => "And"
  | .arithmetic .or => "Or"
  | .arithmetic .xor => "Xor"
  | .comparison .gt => "Gt"
  | .comparison .gte => "Gte"
  | .comparison .lt => "Lt"
  | .comparison .lte => "Lte"
  | .comparison .eq => "Eq"
  | .comparison .neq => "Neq"
  | .dup => "Dup"
  | .swap => "Swap"
  | .exchangeBytes => "ExchangeBytes"
  | .alloc => "Alloc"
  | .outputString => "OutputString"
  | .copyBytes => "CopyBytes"
  | .output => "Output"

/-- The kind of operand that follows the opcode. -/
def Opcode.operandKind : Opcode → OperandKind
  | .branch | .branchIfFalse => .codeAddress
  | .loadImmediate => .immediate
  | .loadLocalAddress => .localIndex
  | .loadStaticAddress => .dataAddress
  | _ => .none

/-- Bytes that an instruction with this opcode takes. -/
def Opcode.encodedLength (opcode : Opcode) : Nat :=
  1 + opcode.operandKind.size

/-- The opcode that a byte stands for. -/
def Opcode.ofByte? (byte : UInt8) : Option Opcode :=
  Opcode.all.find? fun opcode => opcode.byte == byte

/-- The opcode with a given mnemonic. -/
def Opcode.ofMnemonic? (name : String) : Option Opcode :=
  Opcode.all.find? fun opcode => opcode.mnemonic == name

theorem Opcode.mem_all (opcode : Opcode) : opcode ∈ Opcode.all := by
  cases opcode with
  | arithmetic operation => cases operation <;> decide
  | comparison relation => cases relation <;> decide
  | _ => decide

@[simp] theorem Opcode.ofByte?_byte (opcode : Opcode) : Opcode.ofByte? opcode.byte = some opcode := by
  cases opcode with
  | arithmetic operation => cases operation <;> decide
  | comparison relation => cases relation <;> decide
  | _ => decide

theorem Opcode.byte_of_ofByte? {byte : UInt8} {opcode : Opcode} (h : Opcode.ofByte? byte = some opcode) :
    opcode.byte = byte := by
  simpa using List.find?_some h

theorem Opcode.encodedLength_pos (opcode : Opcode) : 0 < opcode.encodedLength := by
  unfold Opcode.encodedLength
  omega

end StackMachine
