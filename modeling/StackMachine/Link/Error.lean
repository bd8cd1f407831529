import StackMachine.Code.Error
import StackMachine.Function.Identifier
import StackMachine.Link.Config
import StackMachine.Machine.Fault

/-!
# What can go wrong from loading to running

The causes for which a function is not loaded, an image is not made, or a run does not return, and the wording of each.
-/

namespace StackMachine

/-- Functions are loaded first, and run afterwards. -/
inductive Phase where
  /-- Functions may be loaded. -/
  | loading
  /-- The image is made: functions may run and static blocks be read. -/
  | finalized
deriving DecidableEq, Repr

/-- The name of a phase. -/
def Phase.text : Phase → String
  | .loading => "loading"
  | .finalized => "finalized"

/-- What belongs to one of the phases only. -/
inductive Operation where
  | load
  | finalize
  | execute
  | readStaticData
deriving DecidableEq, Repr

/-- The name of an operation in messages. -/
def Operation.text : Operation → String
  | .load => "load_function"
  | .finalize => "finalize_load"
  | .execute => "execute_function_top_level"
  | .readStaticData => "read_static_data"

/-- Why a function is not loaded, an image is not made, or a run does not return. -/
inductive MachineError where
  /-- The operation belongs to the other phase. -/
  | phaseViolation (operation : Operation) (phase : Phase)
  | unknownFunction (name : String)
  | unknownStaticData (identifier : Identifier)
  | invalidConfig (flaw : ConfigFlaw)
  /-- The function is not accepted. -/
  | code (error : CodeError)
  | trap (reached : Trap)
deriving DecidableEq, Repr

/-- The wording of an error. -/
def MachineError.message : MachineError → String
  | .phaseViolation operation phase => s!"`{operation.text}` is not allowed in the {phase.text} phase"
  | .unknownFunction name => s!"unknown function `{name}`"
  | .unknownStaticData identifier => s!"unknown static data {identifier.text}"
  | .invalidConfig flaw => s!"invalid configuration: {flaw.message}"
  | .code error => error.message
  | .trap reached => s!"trap: {reached.message}"

end StackMachine
