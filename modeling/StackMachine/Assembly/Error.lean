import StackMachine.Assembly.DataType
import StackMachine.Code.Error

/-!
# What can go wrong in assembly

The causes for which a variable gets no place in the frame or a function is not assembled, and the wording of each.
-/

namespace StackMachine

/-- The number by which a program refers to one of its variables. -/
structure VariableId where
  number : UInt32
deriving DecidableEq, Repr

/-- The name of a variable in messages. -/
def VariableId.text (id : VariableId) : String :=
  s!"v{id.number.toNat}"

/-- What a handle of a builder refers to. -/
inductive HandleKind where
  | label
  | staticData
deriving DecidableEq, Repr

/-- The name of a kind of handle in messages. -/
def HandleKind.text : HandleKind → String
  | .label => "label"
  | .staticData => "static data"

/-- A limit that a function would exceed. -/
inductive LimitCause where
  /-- Every index of a local is taken. -/
  | noIndexLeft
  /-- More locals are declared than an index can address. -/
  | tooManyLocals (count : Nat)
  /-- The code has an offset that an operand cannot hold. -/
  | codeTooLong (length : Nat)
  /-- The frame has an offset that an address cannot hold. -/
  | frameTooLarge
deriving DecidableEq, Repr

/-- The wording of a limit. -/
def LimitCause.message : LimitCause → String
  | .noIndexLeft => s!"more than {maxLocals} locals"
  | .tooManyLocals count => s!"{count} locals declared, at most {maxLocals} are addressable"
  | .codeTooLong length => s!"{length} bytes of code do not fit a 32-bit branch operand"
  | .frameTooLarge => "frame larger than the 32-bit address space"

/-- Why a variable gets no place or a function is not assembled. -/
inductive AssemblyError where
  /-- The type has no size. -/
  | unsupportedType (type : DataType)
  /-- The variable that is referred to has no place yet. -/
  | unallocatedVariable (id : VariableId)
  /-- The variable that is referred to has no slot of its own. -/
  | notAddressable (id : VariableId)
  /-- The variable has a place already. -/
  | alreadyAllocated (id : VariableId)
  /-- The label has a position already. -/
  | labelAlreadySet (index : UInt32)
  /-- A branch leads to a label without a position. -/
  | unsetLabel (index : UInt32)
  /-- The builder has nothing with this index. -/
  | unknownHandle (kind : HandleKind) (index : UInt32)
  /-- The function would exceed a limit. -/
  | limitExceeded (cause : LimitCause)
  /-- The assembled function is not accepted. -/
  | verification (error : CodeError)
deriving Repr

/-- The wording of an error. -/
def AssemblyError.message : AssemblyError → String
  | .unsupportedType type => s!"unsupported type for local allocation: {type.text}"
  | .unallocatedVariable id => s!"variable {id.text} has no value source yet"
  | .notAddressable id => s!"variable {id.text} is not addressable"
  | .alreadyAllocated id => s!"variable {id.text} is already allocated"
  | .labelAlreadySet index => s!"label {index.toNat} has already been set"
  | .unsetLabel index => s!"label {index.toNat} is referenced by a branch but was never set"
  | .unknownHandle kind index => s!"unknown {kind.text} handle {index.toNat}"
  | .limitExceeded cause => s!"limit exceeded: {cause.message}"
  | .verification error => s!"verification failed: {error.message}"

end StackMachine
