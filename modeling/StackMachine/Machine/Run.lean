import StackMachine.Machine.Step

/-!
# Runs

A run goes in rounds.  A round checks the instruction limit, reads the instruction at the current offset, counts it and
carries it out.  A run need not end, so `Run.advance` goes through a given number of rounds.
-/

namespace StackMachine

/-- How far a run has come. -/
inductive Run where
  /-- The next round is at an offset of the code. -/
  | running (ip : Nat) (state : State)
  /-- The function has returned. -/
  | returned (state : State)
  /-- An instruction could not be carried out. -/
  | trapped (trap : Trap) (state : State)
deriving DecidableEq, Repr

/-- The state that the run has come to. -/
def Run.state : Run → State
  | .running _ s | .returned s | .trapped _ s => s

/-- What is counted of a run. -/
structure Summary where
  /-- Instructions begun, as counted by `State.executed`. -/
  instructions : Nat
  peakDepth : Nat
  heapAllocated : Nat
deriving DecidableEq, Repr

/-- The counters of a state. -/
def State.summary (s : State) : Summary :=
  ⟨s.executed, s.peakDepth, s.heapAllocated⟩

/-- Why no instruction can be read. -/
def CodeError.fault : CodeError → Fault
  | .invalidOpcode _ byte => .invalidOpcode byte
  | _ => .codeOutOfBounds

/-- Whether a run has had its number of instructions. -/
def State.reachedLimit (s : State) (limit : Option UInt64) : Bool :=
  match limit with
  | some limit => limit.toNat ≤ s.executed
  | none => false

/-- One round at an offset of the code. -/
def Run.round (f : Function) (limit : Option UInt64) (ip : Nat) (s : State) : Run :=
  if s.reachedLimit limit then .trapped ⟨.instructionLimitExceeded, ip⟩ s
  else
    match Instruction.decodeAt f.code ip with
    | .error e => .trapped ⟨e.fault, ip⟩ s
    | .ok i =>
      match i.execute f { s with executed := s.executed + 1 } with
      | .ok .next s => .running (ip + i.length) s
      | .ok (.jump target) s => .running target s
      | .ok .halt s => .returned s
      | .error fault s => .trapped ⟨fault, ip⟩ s

/-- The run after a number of rounds, or when it has ended. -/
def Run.advance (f : Function) (limit : Option UInt64) : (rounds : Nat) → Run → Run
  | rounds + 1, .running ip s => Run.advance f limit rounds (Run.round f limit ip s)
  | _, run => run

/-- A run before its first round; the frame has to fit the stack region. -/
def Run.start (f : Function) (memory : Memory) (output : Array String) : Run :=
  if f.stackTop memory.layout ≤ memory.layout.heapStart then .running 0 (.initial memory output)
  else .trapped ⟨.stackOverflow, 0⟩ (.initial memory output)

end StackMachine
