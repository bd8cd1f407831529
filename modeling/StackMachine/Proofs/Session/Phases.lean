import StackMachine.Session
import StackMachine.Proofs.Link.History
import StackMachine.Proofs.Link.StaticData
import StackMachine.Proofs.Machine.Soundness

/-!
# Phases of a session

A history is a list of calls on a session with their answers (`Session.History`).  What one call can do is said once, in
`Session.Change`: it is refused and does nothing, or it loads, makes the image, runs or reads.  What holds after every
history follows by induction from that.

A session leaves the loading phase with the one call that makes the image, and never goes back.  Calls that were refused
can be struck out of a history, a failed attempt to make the image included (`History.strikeOut`).  In the finalized
phase the image is a linked image that was executed and nothing else (`Program.Reached`), so it keeps everything but the
bytes of its memory.
-/

namespace StackMachine

/-- A run came to a fault; all other errors refuse an operation before it does anything. -/
def MachineError.isTrap : MachineError → Bool
  | .trap _ => true
  | _ => false

/-- The phase that an operation belongs to. -/
def Operation.phase : Operation → Phase
  | .load | .finalize => .loading
  | .execute | .readStaticData => .finalized

/-- The later image has everything of the image but the bytes of its memory. -/
structure Image.Frozen (image later : Image) : Prop where
  config : later.config = image.config
  layout : later.memory.layout = image.memory.layout
  size : later.memory.bytes.size = image.memory.bytes.size
  functions : later.functions = image.functions
  locations : later.locations = image.locations

/-- What a session can hold. -/
inductive Program.Reached : Program → Prop
  | loading {loader : Loader} (h : loader.Reached) : Reached (.loading loader)
  | finalized {loader : Loader} (h : loader.Reached) {linked image : Image} (hlink : loader.link = .ok linked)
      (hexecuted : linked.Executed image) : Reached (.finalized image)

namespace Session

/-- A call on a session. -/
inductive Call where
  | load (f : Function)
  | finalize
  | execute (name : String)
  | readStaticData (identifier : Identifier)

def Call.operation : Call → Operation
  | .load _ => .load
  | .finalize => .finalize
  | .execute _ => .execute
  | .readStaticData _ => .readStaticData

/-- What a call gives back if it succeeds. -/
inductive Reply where
  | done
  | summary (summary : Summary)
  | bytes (bytes : List UInt8)

/-- The answer to a call and the session after it, if a run that it starts ends within the given number of rounds. -/
def call? (session : Session) (rounds : Nat) : Call → Option (Except MachineError Reply × Session)
  | .load f => some ((session.load f).1.map fun _ => .done, (session.load f).2)
  | .finalize => some (session.finalize.1.map fun _ => .done, session.finalize.2)
  | .execute name => (session.execute? rounds name).map fun (result, next) => (result.map .summary, next)
  | .readStaticData identifier => some ((session.readStaticData identifier).map .bytes, session)

/-- The call comes back with the answer, and leaves the session `next`. -/
def Answers (session : Session) (c : Call) (result : Except MachineError Reply) (next : Session) : Prop :=
  ∃ rounds, session.call? rounds c = some (result, next)

/-- Calls that were made one after the other, with their answers. -/
inductive History (start : Session) : List (Call × Except MachineError Reply) → Session → Prop
  | nil : History start [] start
  | snoc {log : List (Call × Except MachineError Reply)} {before next : Session} {c : Call}
      {result : Except MachineError Reply} (h : History start log before) (hanswers : before.Answers c result next) :
      History start (log ++ [(c, result)]) next

/-- Whether the call has made the image. -/
def finalizes : Call × Except MachineError Reply → Bool
  | (.finalize, .ok _) => true
  | _ => false

/-- Whether the call was carried out, at least up to a trap. -/
def carriedOut : Call × Except MachineError Reply → Bool
  | (_, .ok _) => true
  | (_, .error e) => e.isTrap

/-- What can be said of a session after the calls of a log. -/
structure Lifecycle (start : Session) (log : List (Call × Except MachineError Reply)) (session : Session) : Prop where
  /-- The image was made once, or it was not made and the session is still loading. -/
  countP_finalizes : log.countP finalizes = if session.phase = .finalized then 1 else 0
  moves : ∀ c result next, session.Answers c result next →
    if finalizes (c, result) then session.phase = .loading ∧ next.phase = .finalized else next.phase = session.phase
  otherPhase : ∀ c, c.operation.phase ≠ session.phase → ∀ result next,
    session.Answers c result next ↔ result = .error (.phaseViolation c.operation session.phase) ∧ next = session
  refused : ∀ c e next, session.Answers c (.error e) next → e.isTrap = false → next = session
  /-- Calls that were refused might as well not have been made. -/
  strikeOut : History start (log.filter carriedOut) session
  frozen : ∀ image, session.image? = some image → ∀ more last, History session more last →
    ∃ later, last.image? = some later ∧ image.Frozen later
  linked : ∀ image, session.image? = some image → ∀ f ∈ image.functions,
    f.patched = true ∧ f.verify = .ok () ∧ image.function? f.name = some f

/-! ### One call -/

/-- What a call can do to a session. -/
inductive Change (session : Session) : Call → Except MachineError Reply → Session → Prop
  | refuse {c : Call} {e : MachineError} (he : e.isTrap = false) : Change session c (.error e) session
  | load {loader : Loader} {f : Function} (hprogram : session.program = .loading loader) (hf : f.loadError? = none) :
      Change session (.load f) (.ok .done) { session with program := .loading (loader.register f) }
  | finalize {loader : Loader} {image : Image} (hprogram : session.program = .loading loader)
      (hlink : loader.link = .ok image) :
      Change session .finalize (.ok .done) { session with program := .finalized image }
  | run {image : Image} {name : String} {rounds : Nat} {execution : Execution}
      (hprogram : session.program = .finalized image)
      (hexecute : image.execute? rounds name session.output = some execution)
      (hcarried : carriedOut (.execute name, execution.result.map .summary) = true) :
      Change session (.execute name) (execution.result.map .summary)
        { program := .finalized execution.image, output := execution.output }
  | read {image : Image} {identifier : Identifier} {bytes : List UInt8}
      (hprogram : session.program = .finalized image) (hread : image.readStaticData identifier = .ok bytes) :
      Change session (.readStaticData identifier) (.ok (.bytes bytes)) session

theorem isTrap_of_link_error {loader : Loader} {e : MachineError} (h : loader.link = .error e) :
    e.isTrap = false := by
  unfold Loader.link at h
  split at h
  · cases h
    rfl
  · split at h
    · cases h
      rfl
    · cases h

/-- An execution is refused for want of the function, or carried out at least up to a trap. -/
theorem execute?_cases {image : Image} {rounds : Nat} {name : String} {output : Array String} {execution : Execution}
    (h : image.execute? rounds name output = some execution) :
    execution = ⟨.error (.unknownFunction name), image, output⟩ ∨
      carriedOut (.execute name, execution.result.map .summary) = true := by
  unfold Image.execute? at h
  split at h
  · cases h
    exact .inl rfl
  · rename_i f hf
    cases hrun : Run.advance f image.config.instructionLimit rounds (Run.start f image.memory output) with
    | running ip s =>
      rw [hrun] at h
      cases h
    | returned s | trapped trap s =>
      rw [hrun] at h
      cases h
      exact .inr rfl

theorem Answers.change {session next : Session} {c : Call} {result : Except MachineError Reply}
    (h : session.Answers c result next) : session.Change c result next := by
  obtain ⟨rounds, hcall⟩ := h
  obtain ⟨program, output⟩ := session
  cases program with
  | loading loader =>
    cases c with
    | load f =>
      simp only [call?, Session.load, Loader.load] at hcall
      cases hf : f.loadError? with
      | some e =>
        rw [hf] at hcall
        cases hcall
        exact .refuse rfl
      | none =>
        rw [hf] at hcall
        cases hcall
        exact .load rfl hf
    | finalize =>
      simp only [call?, Session.finalize] at hcall
      cases hlink : loader.link with
      | error e =>
        rw [hlink] at hcall
        cases hcall
        exact .refuse (isTrap_of_link_error hlink)
      | ok image =>
        rw [hlink] at hcall
        cases hcall
        exact .finalize rfl hlink
    | execute | readStaticData =>
      cases hcall
      exact .refuse rfl
  | finalized image =>
    cases c with
    | load | finalize =>
      cases hcall
      exact .refuse rfl
    | execute name =>
      simp only [call?, Session.execute?, Option.map_map] at hcall
      obtain ⟨execution, hexecute, hresult⟩ := Option.map_eq_some_iff.1 hcall
      cases hresult
      rcases execute?_cases hexecute with rfl | hcarried
      · -- image and output are those of the session, so it is the session itself
        exact .refuse rfl
      · exact .run rfl hexecute hcarried
    | readStaticData identifier =>
      simp only [call?, Session.readStaticData] at hcall
      cases hread : image.readStaticData identifier with
      | error e =>
        rw [hread] at hcall
        cases hcall
        unfold Image.readStaticData at hread
        split at hread
        · cases hread
        · cases hread
          exact .refuse rfl
      | ok bytes =>
        rw [hread] at hcall
        cases hcall
        exact .read rfl hread

/-- In the other phase nothing is done, and the answer names the operation and the phase. -/
theorem answers_iff_of_other_phase {session : Session} {c : Call} (h : c.operation.phase ≠ session.phase)
    (result : Except MachineError Reply) (next : Session) :
    session.Answers c result next ↔
      result = .error (.phaseViolation c.operation session.phase) ∧ next = session := by
  have hcall : ∀ rounds,
      session.call? rounds c = some (.error (.phaseViolation c.operation session.phase), session) := by
    intro rounds
    obtain ⟨program, output⟩ := session
    cases program <;> cases c <;> first | rfl | exact absurd rfl h
  constructor
  · rintro ⟨rounds, hanswer⟩
    rw [hcall] at hanswer
    cases hanswer
    exact ⟨rfl, rfl⟩
  · rintro ⟨rfl, rfl⟩
    exact ⟨0, hcall 0⟩

section

variable {session next : Session} {c : Call} {result : Except MachineError Reply}

theorem Change.eq_of_not_carriedOut (h : session.Change c result next) (hrefused : carriedOut (c, result) = false) :
    next = session := by
  cases h with
  | refuse => rfl
  | load | finalize | read => cases hrefused
  | run _ _ hcarried =>
    rw [hcarried] at hrefused
    cases hrefused

/-- The phase changes exactly if the call makes the image, and then from loading to finalized. -/
theorem Change.phase_eq (h : session.Change c result next) :
    if finalizes (c, result) then session.phase = .loading ∧ next.phase = .finalized
    else next.phase = session.phase := by
  cases h with
  | refuse =>
    have hnot : ∀ e : MachineError, finalizes (c, .error e) = false := by
      intro e
      cases c <;> rfl
    rw [hnot, if_neg Bool.false_ne_true]
  | finalize hprogram =>
    rw [Session.phase, hprogram]
    exact ⟨rfl, rfl⟩
  | load hprogram =>
    rw [Session.phase, Session.phase, hprogram]
    rfl
  | run hprogram =>
    have hphase : session.phase = .finalized := by rw [Session.phase, hprogram]
    exact hphase.symm
  | read => rfl

theorem Change.reached (h : session.Change c result next) (hreached : session.program.Reached) :
    next.program.Reached := by
  cases h with
  | refuse | read => exact hreached
  | @load loader f hprogram hf =>
    rw [hprogram] at hreached
    cases hreached with
    | loading hloader =>
      have hload : (loader.load f).2 = loader.register f := by rw [Loader.load, hf]
      exact .loading (hload ▸ hloader.load f)
  | finalize hprogram hlink =>
    rw [hprogram] at hreached
    -- the image has not been executed yet
    cases hreached with
    | loading hloader => exact .finalized hloader hlink .refl
  | run hprogram hexecute =>
    rw [hprogram] at hreached
    cases hreached with
    | finalized hloader hlink hexecuted => exact .finalized hloader hlink (hexecuted.execute hexecute)

/-- Once it is made, an image is executed and nothing else. -/
theorem Change.executed (h : session.Change c result next) {image later : Image} (himage : session.image? = some later)
    (hexecuted : image.Executed later) : ∃ last, next.image? = some last ∧ image.Executed last := by
  cases h with
  | refuse | read => exact ⟨later, himage, hexecuted⟩
  | load hprogram | finalize hprogram =>
    rw [Session.image?, hprogram] at himage
    cases himage
  | run hprogram hexecute =>
    rw [Session.image?, hprogram] at himage
    cases himage
    exact ⟨_, rfl, hexecuted.execute hexecute⟩

end

/-! ### Whole histories -/

section

variable {start session : Session} {log : List (Call × Except MachineError Reply)}

theorem History.reached (h : History start log session) (hstart : start.program.Reached) :
    session.program.Reached := by
  induction h with
  | nil => exact hstart
  | snoc _ hanswers ih => exact hanswers.change.reached ih

theorem History.countP_finalizes (h : History start log session) (hstart : start.phase = .loading) :
    log.countP finalizes = if session.phase = .finalized then 1 else 0 := by
  induction h with
  | nil =>
    rw [hstart]
    rfl
  | @snoc log before next c result _ hanswers ih =>
    have hphase := hanswers.change.phase_eq
    rw [List.countP_append, List.countP_singleton, ih]
    split at hphase
    · rename_i hfinalizes
      rw [hphase.1, hphase.2, hfinalizes]
      rfl
    · rename_i hfinalizes
      rw [hphase, if_neg hfinalizes, Nat.add_zero]

theorem History.strikeOut (h : History start log session) : History start (log.filter carriedOut) session := by
  induction h with
  | nil => exact .nil
  | @snoc log before next c result _ hanswers ih =>
    rw [List.filter_append]
    cases hcarried : carriedOut (c, result) with
    | true =>
      rw [List.filter_cons_of_pos hcarried, List.filter_nil]
      exact ih.snoc hanswers
    | false =>
      -- the call has left the session as it was, so the history without it leads to the same session
      have hsame : next = before := hanswers.change.eq_of_not_carriedOut hcarried
      rw [List.filter_cons_of_neg (by simp [hcarried]), List.filter_nil, List.append_nil, hsame]
      exact ih

theorem History.executed (h : History start log session) {image : Image} (himage : start.image? = some image) :
    ∃ last, session.image? = some last ∧ image.Executed last := by
  induction h with
  | nil => exact ⟨image, himage, .refl⟩
  | snoc _ hanswers ih =>
    obtain ⟨later, hlater, hexecuted⟩ := ih
    exact hanswers.change.executed hlater hexecuted

end

/-! ### Images of a session -/

theorem program_of_image? {session : Session} {image : Image} (h : session.image? = some image) :
    session.program = .finalized image := by
  unfold Session.image? at h
  split at h
  · cases h
  · rename_i hprogram
    cases h
    exact hprogram

end Session

theorem Image.Executed.frozen {image later : Image} (h : image.Executed later) (hsound : image.memory.Sound) :
    image.Frozen later := by
  obtain ⟨memory, hshape, rfl⟩ := h.exists_withMemory hsound
  exact ⟨rfl, hshape.layout_eq, hshape.size_eq, rfl, rfl⟩

theorem Program.Reached.sound {image : Image} (h : Program.Reached (.finalized image)) : image.memory.Sound := by
  cases h with
  | finalized hloader hlink hexecuted =>
    have hsound := hloader.consistent.sound_of_link hlink
    obtain ⟨memory, hshape, rfl⟩ := hexecuted.exists_withMemory hsound
    exact hshape.sound hsound

/-- The functions of an image are patched and acceptable, and found under their names. -/
theorem Program.Reached.linked {image : Image} (h : Program.Reached (.finalized image)) {f : Function}
    (hf : f ∈ image.functions) : f.patched = true ∧ f.verify = .ok () ∧ image.function? f.name = some f := by
  cases h with
  | @finalized loader hloader linked _ hlink hexecuted =>
    have hconsistent := hloader.consistent
    obtain ⟨memory, -, rfl⟩ := hexecuted.exists_withMemory (hconsistent.sound_of_link hlink)
    have hfunctions : linked.functions = loader.registry.functions.map loader.linked := by
      obtain ⟨-, -, rfl⟩ := hconsistent.link_ok hlink
      rfl
    have hmem : f ∈ loader.registry.functions.map loader.linked := hfunctions ▸ hf
    obtain ⟨g, hg, rfl⟩ := List.mem_map.1 hmem
    have hverified := (hconsistent.verifiedBy_linked hg).1
    have hfound : linked.function? g.name = some (loader.linked g) := hconsistent.function?_of_mem hlink hg
    exact ⟨rfl, Function.verify_eq_ok_iff.2 hverified, hfound⟩

namespace Session

/-- Whatever calls are made on a session, and whatever their answers. -/
theorem History.lifecycle {config : Config} {fresh : Session} (hfresh : Session.ofConfig config = .ok fresh)
    (output : Array String) {log : List (Call × Except MachineError Reply)} {session : Session}
    (h : History { fresh with output } log session) : Lifecycle { fresh with output } log session := by
  have hloader : ∃ loader, Loader.ofConfig config = .ok loader ∧ fresh = { program := .loading loader } := by
    unfold Session.ofConfig at hfresh
    cases hconfig : Loader.ofConfig config with
    | error e =>
      rw [hconfig] at hfresh
      cases hfresh
    | ok loader =>
      rw [hconfig] at hfresh
      cases hfresh
      exact ⟨loader, rfl, rfl⟩
  obtain ⟨loader, hconfig, rfl⟩ := hloader
  have hreached : session.program.Reached := h.reached (.loading (.ofConfig hconfig))
  constructor
  case countP_finalizes => exact h.countP_finalizes rfl
  case moves =>
    intro c result next hanswers
    exact hanswers.change.phase_eq
  case otherPhase =>
    intro c hphase result next
    exact answers_iff_of_other_phase hphase result next
  case refused =>
    intro c e next hanswers he
    exact hanswers.change.eq_of_not_carriedOut he
  case strikeOut => exact h.strikeOut
  case frozen =>
    intro image himage more last hmore
    rw [program_of_image? himage] at hreached
    obtain ⟨later, hlater, hexecuted⟩ := hmore.executed himage
    exact ⟨later, hlater, hexecuted.frozen hreached.sound⟩
  case linked =>
    intro image himage f hf
    rw [program_of_image? himage] at hreached
    exact hreached.linked hf

/-- A configuration under which there is no room for static data. -/
def tight : Config :=
  { dataSegmentAlignment := 2147483647 }

/-- `greeting` without its static block. -/
def farewell : Function :=
  { name := "greeting", localOffsets := [], localSize := 0, code := encodeAll [.plain .ret], staticData := [] }

def crowdedLoader : Loader :=
  Loader.register { config := tight } greeting

def relievedLoader : Loader :=
  crowdedLoader.register farewell

/-- The image cannot be made at first; it is made after `greeting` has been replaced, and then nothing is loaded. -/
def secondAttempt : List (Call × Except MachineError Reply) :=
  [(.load greeting, .ok .done), (.finalize, .error (.invalidConfig (.imageTooLarge 4))), (.load farewell, .ok .done),
   (.finalize, .ok .done), (.load greeting, .error (.phaseViolation .load .finalized))]

theorem History.lifecycle_secondAttempt :
    Session.ofConfig tight = .ok { program := .loading { config := tight } } ∧
    ∃ session, History { program := .loading { config := tight } } secondAttempt session ∧
      Lifecycle { program := .loading { config := tight } } secondAttempt session := by
  have hfresh : Session.ofConfig tight = .ok { program := .loading { config := tight } } := rfl
  have hgreeting : greeting.loadError? = none := by decide +kernel
  have hfarewell : farewell.loadError? = none := by decide +kernel
  have hempty : Loader.Consistent { config := tight } :=
    (Loader.Reached.ofConfig (show Loader.ofConfig tight = .ok _ from rfl)).consistent
  have hcrowded : crowdedLoader.Consistent := hempty.register hgreeting
  have hrelieved : relievedLoader.Consistent := hcrowded.register hfarewell
  have hload : ∀ {loader : Loader} {f : Function}, f.loadError? = none →
      Answers { program := .loading loader } (.load f) (.ok .done) { program := .loading (loader.register f) } := by
    intro loader f hf
    refine ⟨0, ?_⟩
    simp only [call?, Session.load, Loader.load, hf]
    rfl
  have hrefused : Answers { program := .loading crowdedLoader } .finalize (.error (.invalidConfig (.imageTooLarge 4)))
      { program := .loading crowdedLoader } := by
    have hsize : crowdedLoader.staticDataSize = 4 := by decide +kernel
    have hfull : tight.imageSize 4 = .error (.imageTooLarge 4) := rfl
    have hlink : crowdedLoader.link = .error (.invalidConfig (.imageTooLarge 4)) := by
      rw [hcrowded.link_eq, hsize, show crowdedLoader.config = tight from rfl, hfull]
    refine ⟨0, ?_⟩
    simp only [call?, Session.finalize, hlink]
    rfl
  obtain ⟨image, hlink⟩ : ∃ image, relievedLoader.link = .ok image := by
    have hsize : relievedLoader.staticDataSize = 0 := by decide +kernel
    have hroom : tight.imageSize 0 = .ok 3072 := rfl
    apply hrelieved.exists_link
    rw [hsize, show relievedLoader.config = tight from rfl, hroom]
  have hmade : Answers { program := .loading relievedLoader } .finalize (.ok .done)
      { program := .finalized image } := by
    refine ⟨0, ?_⟩
    simp only [call?, Session.finalize, hlink]
    rfl
  have hclosed : Answers { program := .finalized image } (.load greeting)
      (.error (.phaseViolation .load .finalized)) { program := .finalized image } := ⟨0, rfl⟩
  have hhistory : History { program := .loading { config := tight } } secondAttempt { program := .finalized image } :=
    ((((History.nil.snoc (hload hgreeting)).snoc hrefused).snoc (hload hfarewell)).snoc hmade).snoc hclosed
  exact ⟨hfresh, _, hhistory, History.lifecycle hfresh #[] hhistory⟩

end Session

end StackMachine
