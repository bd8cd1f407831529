import StackMachine.Link.Loader

/-!
# Sessions

A session goes through two phases.  While loading it takes in functions; finalizing it makes the image, and from then on
functions can be run and static blocks read.  An operation of the other phase is refused, and an operation that fails for
another reason than a trap changes nothing.
-/

namespace StackMachine

/-- What a session holds in each phase. -/
inductive Program where
  | loading (loader : Loader)
  | finalized (image : Image)

/-- A program, and the lines that it has given out and that were not taken yet. -/
structure Session where
  program : Program := .loading {}
  output : Array String := #[]

namespace Session

/-- A session that starts loading, if the configuration is accepted. -/
def ofConfig (config : Config) : Except MachineError Session :=
  (Loader.ofConfig config).map fun loader => { program := .loading loader }

/-- The phase of the session. -/
def phase (session : Session) : Phase :=
  match session.program with
  | .loading _ => .loading
  | .finalized _ => .finalized

/-- The image, once it is made. -/
def image? (session : Session) : Option Image :=
  match session.program with
  | .loading _ => none
  | .finalized image => some image

/-- Loads a function. -/
def load (session : Session) (f : Function) : Except MachineError Unit × Session :=
  match session.program with
  | .loading loader =>
    match loader.load f with
    | (.ok _, loader) => (.ok (), { session with program := .loading loader })
    | (.error e, loader) => (.error e, { session with program := .loading loader })
  | .finalized _ => (.error (.phaseViolation .load .finalized), session)

/-- Loads a function, if the sizes that are added up for it fit 64-bit registers. -/
def load? (session : Session) (f : Function) : Option (Except MachineError Unit × Session) :=
  match session.program with
  | .loading loader =>
    (loader.load? f).map fun (answer, loader) => (answer.map fun _ => (), { session with program := .loading loader })
  | .finalized _ => some (session.load f)

/-- Makes the image. -/
def finalize (session : Session) : Except MachineError Unit × Session :=
  match session.program with
  | .loading loader =>
    match loader.link with
    | .ok image => (.ok (), { session with program := .finalized image })
    | .error e => (.error e, session)
  | .finalized _ => (.error (.phaseViolation .finalize .finalized), session)

/-- Runs a function, if its run ends within the given number of rounds. -/
def execute? (session : Session) (rounds : Nat) (name : String) : Option (Except MachineError Summary × Session) :=
  match session.program with
  | .loading _ => some (.error (.phaseViolation .execute .loading), session)
  | .finalized image =>
    (image.execute? rounds name session.output).map fun execution =>
      (execution.result, { program := .finalized execution.image, output := execution.output })

/-- The bytes that stand now at the place of a static block. -/
def readStaticData (session : Session) (identifier : Identifier) : Except MachineError (List UInt8) :=
  match session.program with
  | .loading _ => .error (.phaseViolation .readStaticData .loading)
  | .finalized image => image.readStaticData identifier

/-- The lines given out since they were last taken. -/
def takeOutput (session : Session) : Array String × Session :=
  (session.output, { session with output := #[] })

end Session

end StackMachine
