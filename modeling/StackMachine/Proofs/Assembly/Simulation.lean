import StackMachine.Proofs.Assembly.Assembled
import StackMachine.Proofs.Link.Linking
import StackMachine.Proofs.Machine.Rounds

/-!
# Running what was emitted

The instructions of a builder can be run as they were emitted: the program counter is a position among them, a branch
goes to the position of its label, a local is found by the sizes declared before it, and a static load pushes the
address of the block that it names.  No bytes of code and no offsets are involved.

The function that is assembled and linked runs step for step like that: after every number of rounds the two runs have
the same state, and the offset of the one is the offset of the position of the other (`advance_locate`).  The step
(`round_locate`) says this of one round, and `execute_eq_perform` of a single instruction.
-/

namespace StackMachine

namespace Builder

/-- A function with the frame that the builder declares, and no code. -/
def frame (builder : Builder) : Function :=
  { name := builder.name, localOffsets := [], localSize := UInt32.ofNat (Size.total builder.localSizes), code := #[],
    staticData := [] }

/-- Goes on at the position of a label. -/
def goTo (builder : Builder) (label : Label) : Action Control :=
  match builder.labels[label.index.toNat]? with
  | some (some position) => return .jump position
  | _ => throw .codeOutOfBounds

open StackMachine.Action in
/-- Carries out an instruction as it was emitted, where the static blocks have the given addresses. -/
def perform (builder : Builder) (addresses : List Nat) : Emission → Action Control
  | .plain opcode => (Instruction.plain opcode).execute builder.frame
  | .immediate value => do
    push value
    return .next
  | .localAddress index => do
    let layout ← layout
    push (Int32.ofNat (layout.stackStart + Size.total (builder.localSizes.take index.toNat)))
    return .next
  | .branch false label => builder.goTo label
  | .branch true label => do
    let condition ← pop
    if condition = 0 then builder.goTo label else return .next
  | .staticAddress block => do
    push (Int32.ofNat (addresses.getD block.index.toNat 0))
    return .next

/-- One round at a position. -/
def round (builder : Builder) (addresses : List Nat) (limit : Option UInt64) (position : Nat) (s : State) : Run :=
  if s.reachedLimit limit then .trapped ⟨.instructionLimitExceeded, position⟩ s
  else
    match builder.emissions[position]? with
    | none => .trapped ⟨.codeOutOfBounds, position⟩ s
    | some emission =>
      match builder.perform addresses emission s.count with
      | .ok control t => control.resume (position + 1) t
      | .error fault t => .trapped ⟨fault, position⟩ t

/-- The run after a number of rounds, or when it has ended. -/
def advance (builder : Builder) (addresses : List Nat) (limit : Option UInt64) : (rounds : Nat) → Run → Run
  | rounds + 1, .running position s => advance builder addresses limit rounds (builder.round addresses limit position s)
  | _, run => run

/-- A run before its first round; the declared locals have to fit the stack region. -/
def start (builder : Builder) (memory : Memory) (output : Array String) : Run :=
  if memory.layout.stackStart + Size.total builder.localSizes ≤ memory.layout.heapStart then
    .running 0 (.initial memory output)
  else .trapped ⟨.stackOverflow, 0⟩ (.initial memory output)

end Builder

/-- The run with offsets instead of positions. -/
def Run.locate (offsetOf : Nat → Nat) : Run → Run
  | .running position s => .running (offsetOf position) s
  | .returned s => .returned s
  | .trapped trap s => .trapped { trap with ip := offsetOf trap.ip } s

def Control.locate (offsetOf : Nat → Nat) : Control → Control
  | .jump position => .jump (offsetOf position)
  | .next => .next
  | .halt => .halt

@[simp] theorem state_locate (offsetOf : Nat → Nat) (run : Run) : (run.locate offsetOf).state = run.state := by
  cases run <;> rfl

theorem resume_locate (offsetOf : Nat → Nat) (control : Control) (behind : Nat) (s : State) :
    (control.locate offsetOf).resume (offsetOf behind) s = (control.resume behind s).locate offsetOf := by
  cases control <;> rfl

/-! ### One instruction -/

/-- An instruction without operand sees nothing of its function but the size of the frame. -/
theorem execute_plain_congr {f g : Function} (h : f.localSize = g.localSize) (opcode : Opcode) (s : State) :
    (Instruction.plain opcode).execute f s = (Instruction.plain opcode).execute g s := by
  have htop : f.stackTop = g.stackTop := by
    funext layout
    rw [Function.stackTop, Function.stackTop, h]
  cases opcode with
  | exchangeBytes => simp only [Instruction.execute, Instruction.plain, htop]
  | _ => rfl

/-- An instruction without operand does not jump. -/
theorem execute_plain_not_jump {f : Function} {opcode : Opcode} (hkind : opcode.operandKind = .none) {s t : State}
    (hs : s.memory.Sound) {control : Control} (h : (Instruction.plain opcode).execute f s = .ok control t)
    (offsetOf : Nat → Nat) : control.locate offsetOf = control := by
  have hwf : (Instruction.plain opcode).WellFormed := hkind.symm
  obtain ⟨words, rest, effect, -, harity, heffect, hcontrol, -⟩ := execute_ok hwf hs h
  cases control with
  | next | halt => rfl
  | jump target =>
    obtain ⟨word, hoperand, -⟩ := (effect_ok hwf harity heffect).2.2 target hcontrol.symm
    cases hoperand

/-- A branch to a label that is set goes to the offset of its position. -/
theorem Builder.Assembles.jump_eq_goTo {builder : Builder} {f : Function} (h : builder.Assembles f) {label : Label}
    (hlabel : ∃ position : Nat, builder.labels[label.index.toNat]? = some (some position)) (s : State) :
    Action.jump (Int32.ofNat (builder.labelOffset builder.offsetOf label)) s =
      match builder.goTo label s with
      | .ok control t => .ok (control.locate builder.offsetOf) t
      | .error fault t => .error fault t := by
  obtain ⟨position, hposition⟩ := hlabel
  have hoffset : builder.labelOffset builder.offsetOf label = builder.offsetOf position := by
    rw [Builder.labelOffset, hposition]
  have hword : (Int32.ofNat (builder.offsetOf position)).toInt = builder.offsetOf position :=
    toInt_ofNat_of_le (Nat.le_trans (builder.offsetOf_le position) h.codeLength_le)
  have hjump : jumpTo (Int32.ofNat (builder.offsetOf position)) = .ok (.jump (builder.offsetOf position)) := by
    rw [jumpTo, hword, if_pos (Int.natCast_nonneg _), Int.toNat_natCast]
  rw [Action.jump_apply, hoffset, hjump, Builder.goTo, hposition]
  rfl

/-- The frame of an assembled function is the one that the builder declares. -/
theorem Builder.Assembles.localSize_eq {builder : Builder} {f : Function} (h : builder.Assembles f) :
    f.localSize = builder.frame.localSize ∧ f.localSize.toNat = Size.total builder.localSizes := by
  obtain ⟨htotal, -, -⟩ := layOutLocals?_eq_some h.frame (Nat.zero_le _)
  rw [Nat.zero_add] at htotal
  obtain ⟨-, -, hsize, -⟩ := layOutLocals?_exact h.frame
  exact ⟨htotal, hsize⟩

/-- The address of a local is found by the sizes declared before it. -/
theorem Builder.Assembles.localAddress_eq {builder : Builder} {f : Function} (h : builder.Assembles f) {k : Nat}
    {index : UInt8} (hk : builder.emissions[k]? = some (.localAddress index)) {s : State}
    (hfit : s.memory.layout.stackStart + Size.total builder.localSizes ≤ maxWord) :
    Action.localAddress f index s =
      .ok (Int32.ofNat (s.memory.layout.stackStart + Size.total (builder.localSizes.take index.toNat))) s := by
  obtain ⟨-, -, -, hexact⟩ := layOutLocals?_exact h.frame
  have hsum := total_take_le builder.localSizes index.toNat
  -- the local exists, since the function has been verified
  have hlt : index.toNat < f.localOffsets.length := by
    refine h.verified.locals (builder.instruction builder.offsetOf (.localAddress index)) ?_ index rfl
    apply List.mem_of_getElem? (i := k)
    rw [builder.getElem?_instructions, hk]
    rfl
  have hoffset := List.getElem?_eq_getElem hlt
  rw [Action.localAddress_apply, hoffset]
  dsimp only
  rw [hexact _ _ hoffset, addressWord, Nat.min_eq_left (by omega)]

/-- An instruction of the linked function does what was emitted, with the offset of a position for the position. -/
theorem Builder.Assembles.execute_eq_perform {builder : Builder} {f : Function} (h : builder.Assembles f)
    {addresses : List Nat} (hcount : addresses.length = builder.blocks.size) {k : Nat} {emission : Emission}
    (hk : builder.emissions[k]? = some emission) {s : State} (hs : s.memory.Sound)
    (hfit : s.memory.layout.stackStart + Size.total builder.localSizes ≤ maxWord) :
    ∃ i, ((f.relocations (addresses.map Int32.ofNat)).foldl readdress builder.instructions)[k]? = some i ∧
      i.execute (f.withAddresses (addresses.map Int32.ofNat)) s =
        match builder.perform addresses emission s with
        | .ok control t => .ok (control.locate builder.offsetOf) t
        | .error fault t => .error fault t := by
  cases emission with
  | plain opcode =>
    refine ⟨_, h.getElem?_readdress_other hk nofun, ?_⟩
    show (Instruction.plain opcode).execute _ s =
      match (Instruction.plain opcode).execute builder.frame s with
      | .ok control t => .ok (control.locate builder.offsetOf) t
      | .error fault t => .error fault t
    have hsize : (f.withAddresses (addresses.map Int32.ofNat)).localSize = builder.frame.localSize := h.localSize_eq.1
    rw [execute_plain_congr hsize]
    cases hexecute : (Instruction.plain opcode).execute builder.frame s with
    | error fault t => rfl
    | ok control t =>
      dsimp only
      rw [execute_plain_not_jump opcode.2 hs hexecute]
  | immediate value => exact ⟨_, h.getElem?_readdress_other hk nofun, rfl⟩
  | localAddress index =>
    refine ⟨_, h.getElem?_readdress_other hk nofun, ?_⟩
    have haddress := h.localAddress_eq hk hfit
    show EStateM.bind (Action.localAddress f index) _ s = _
    unfold EStateM.bind
    rw [haddress]
    rfl
  | branch conditional label =>
    have hjump := h.jump_eq_goTo (h.labels k conditional label hk)
    refine ⟨_, h.getElem?_readdress_other hk nofun, ?_⟩
    cases conditional with
    | false => exact hjump s
    | true =>
      show (do
          let condition ← Action.pop
          if condition = 0 then Action.jump (Int32.ofNat (builder.labelOffset builder.offsetOf label))
          else return .next : Action Control) s =
        match (do
          let condition ← Action.pop
          if condition = 0 then builder.goTo label else return .next : Action Control) s with
        | .ok control t => .ok (control.locate builder.offsetOf) t
        | .error fault t => .error fault t
      cases hpop : Action.pop s with
      | error fault t => rw [Action.bind_of_error hpop, Action.bind_of_error hpop]
      | ok condition t =>
        rw [Action.bind_of_ok hpop, Action.bind_of_ok hpop]
        by_cases hzero : condition = 0
        · rw [if_pos hzero, if_pos hzero]
          exact hjump t
        · rw [if_neg hzero, if_neg hzero]
          rfl
  | staticAddress block =>
    have hlt : block.index.toNat < addresses.length := by
      rw [hcount]
      exact h.blocks k block hk
    have haddress : (addresses.map Int32.ofNat)[block.index.toNat]? =
        some (Int32.ofNat (addresses.getD block.index.toNat 0)) := by
      rw [List.getElem?_map, List.getD_eq_getElem?_getD, List.getElem?_eq_getElem hlt]
      rfl
    exact ⟨_, h.getElem?_readdress_static hk haddress, rfl⟩

/-! ### Rounds and runs -/

/-- A round of the linked function is a round of what was emitted. -/
theorem Builder.Assembles.round_locate {builder : Builder} {f : Function} (h : builder.Assembles f)
    {addresses : List Nat} (hcount : addresses.length = builder.blocks.size) {s : State} (hs : s.memory.Sound)
    (hfit : s.memory.layout.stackStart + Size.total builder.localSizes ≤ maxWord) (limit : Option UInt64)
    (position : Nat) :
    Run.round (f.withAddresses (addresses.map Int32.ofNat)) limit (builder.offsetOf position) s =
      (builder.round addresses limit position s).locate builder.offsetOf := by
  have hverified := h.verified.withAddresses (addresses.map Int32.ofNat)
  have hoffset : ∀ k, offsetAt ((f.relocations (addresses.map Int32.ofNat)).foldl readdress builder.instructions) k =
      builder.offsetOf k := by
    intro k
    rw [offsetAt_foldl_readdress, builder.offsetAt_instructions]
  have hround := round_encodeAll hverified.wellFormed hverified.code_eq limit position s
  simp only [hoffset] at hround
  rw [hround, Builder.round]
  split
  · rfl
  · cases hk : builder.emissions[position]? with
    | none =>
      have hnone : ((f.relocations (addresses.map Int32.ofNat)).foldl readdress builder.instructions)[position]? =
          none := by
        rw [getElem?_foldl_readdress, builder.getElem?_instructions, hk]
        rfl
      rw [hnone]
      rfl
    | some emission =>
      obtain ⟨i, hi, hexecute⟩ := h.execute_eq_perform (s := s.count) hcount hk hs hfit
      rw [hi]
      dsimp only
      rw [hexecute]
      cases builder.perform addresses emission s.count with
      | ok control t => exact resume_locate builder.offsetOf control (position + 1) t
      | error fault t => rfl

/-- A run of the linked function is a run of what was emitted. -/
theorem Builder.Assembles.advance_locate {builder : Builder} {f : Function} (h : builder.Assembles f)
    {addresses : List Nat} (hcount : addresses.length = builder.blocks.size) {memory : Memory}
    (hmemory : memory.Sound) (hfit : memory.layout.stackStart + Size.total builder.localSizes ≤ maxWord)
    (limit : Option UInt64) (rounds : Nat) {run : Run} (hrun : run.state.memory.SameShape memory) :
    Run.advance (f.withAddresses (addresses.map Int32.ofNat)) limit rounds (run.locate builder.offsetOf) =
      (builder.advance addresses limit rounds run).locate builder.offsetOf := by
  induction rounds generalizing run with
  | zero => cases run <;> rfl
  | succ rounds ih =>
    cases run with
    | returned s | trapped trap s => rfl
    | running position s =>
      have hs : s.memory.Sound := hrun.sound hmemory
      have hlayout : s.memory.layout = memory.layout := hrun.layout_eq
      have hround : Run.round (f.withAddresses (addresses.map Int32.ofNat)) limit (builder.offsetOf position) s =
          (builder.round addresses limit position s).locate builder.offsetOf := by
        apply h.round_locate hcount hs
        rw [hlayout]
        exact hfit
      have hnext : (builder.round addresses limit position s).state.memory.SameShape memory := by
        rw [← state_locate builder.offsetOf, ← hround]
        exact (round_sameShape hs).trans hrun
      show Run.advance _ limit rounds (Run.round _ limit (builder.offsetOf position) s) = _
      rw [hround]
      exact ih hnext

theorem Builder.Assembles.start_locate {builder : Builder} {f : Function} (h : builder.Assembles f)
    (addresses : List Word) (memory : Memory) (output : Array String) :
    Run.start (f.withAddresses addresses) memory output = (builder.start memory output).locate builder.offsetOf := by
  have htop : (f.withAddresses addresses).stackTop memory.layout =
      memory.layout.stackStart + Size.total builder.localSizes := by
    show memory.layout.stackStart + f.localSize.toNat = _
    rw [h.localSize_eq.2]
  have hzero : builder.offsetOf 0 = 0 := by simp [Builder.offsetOf]
  rw [Run.start, Builder.start, htop]
  split
  · rw [Run.locate, hzero]
  · rw [Run.locate, hzero]

/-- A function that is assembled and linked runs as its instructions were emitted, from any memory and for any number of
rounds, with the blocks at the addresses where the image holds them. -/
theorem Builder.linked_run_eq {builder : Builder} {f : Function} (hassemble : builder.assemble = .ok f)
    {loader : Loader} (h : loader.Reached) (hf : f ∈ loader.registry.functions) {image : Image}
    (hlink : loader.link = .ok image) :
    ∃ g, image.function? f.name = some g ∧
      (∀ position, builder.emissions.size ≤ position → builder.offsetOf position = g.code.size) ∧
      (∀ (k : Nat) (block : BlockData), builder.blocks[k]? = some block →
        ∃ address, (loader.addressesOf f)[k]? = some address ∧
          ∀ n, n < block.data.size → image.memory.bytes[address + n]? = block.data[n]?) ∧
      ∀ memory : Memory, memory.SameShape image.memory →
        ∀ (limit : Option UInt64) (rounds : Nat) (output : Array String),
          Run.advance g limit rounds (Run.start g memory output) =
            (builder.advance (loader.addressesOf f) limit rounds (builder.start memory output)).locate
              builder.offsetOf := by
  have hconsistent := h.consistent
  have hassembles := Builder.assembles_of_assemble hassemble
  have hcount : (loader.addressesOf f).length = builder.blocks.size := by
    rw [Loader.addressesOf, List.length_map, List.length_range, hassembles.staticData_eq, builder.staticData_eq]
    simp
  refine ⟨loader.linked f, hconsistent.function?_of_mem hlink hf, ?_, ?_, ?_⟩
  · intro position hposition
    rw [Builder.offsetOf_of_size_le hposition, ← builder.codeLength_instructions, ← hassembles.verified.size_code]
    exact (hassembles.verified.size_withAddresses _).symm
  · intro k block hk
    have hblock : f.staticData[k]? = some ⟨block.data, builder.loadOffsets builder.offsetOf k, block.identifier⟩ := by
      rw [hassembles.staticData_eq, builder.getElem?_staticData, hk]
      rfl
    refine ⟨loader.address (loader.blocksBefore f + k), ?_, ?_⟩
    · rw [Loader.addressesOf, List.getElem?_map, List.getElem?_range (List.getElem?_eq_some_iff.1 hblock).1]
      rfl
    · exact (hconsistent.placement hlink).held _ _ (Loader.getElem?_blocks hf hblock)
  · intro memory hshape limit rounds output
    have hsound := hshape.sound (hconsistent.sound_of_link hlink)
    rw [Loader.linked, hassembles.start_locate]
    by_cases hroom : memory.layout.stackStart + Size.total builder.localSizes ≤ memory.layout.heapStart
    · have hheap := hsound.heapStart_le
      have hstop := hsound.stop_eq
      have hsize := hsound.size_le
      apply hassembles.advance_locate hcount hsound (by omega)
      rw [Builder.start, if_pos hroom]
      exact Memory.SameShape.refl memory
    · -- without room for the frame neither run begins
      rw [Builder.start, if_neg hroom]
      cases rounds <;> rfl

/-- The instructions of `greeting` as they are emitted. -/
def greeter : Builder :=
  { name := "greeting", localSizes := [4]
    emissions := #[.localAddress 0, .staticAddress ⟨0⟩, .plain ⟨.storePointer, rfl⟩, .staticAddress ⟨0⟩, .immediate 2,
      .plain ⟨.outputString, rfl⟩, .branch false ⟨0⟩]
    labels := #[some 3], blocks := #[{ data := #[104, 105] }] }

theorem assemble_greeter : greeter.assemble = .ok greeting :=
  Builder.assemble_of_toOption (by decide +kernel)

theorem Builder.linked_run_eq_greeting :
    greeter.assemble = .ok greeting ∧ ∃ image g, greetingLoader.link = .ok image ∧
      image.function? "greeting" = some g ∧ ∀ memory : Memory, memory.SameShape image.memory → ∀ limit rounds output,
        Run.advance g limit rounds (Run.start g memory output) =
          (greeter.advance (greetingLoader.addressesOf greeting) limit rounds (greeter.start memory output)).locate
            greeter.offsetOf := by
  obtain ⟨image, hlink⟩ := exists_link_greetingLoader
  obtain ⟨g, hg, -, -, hrun⟩ :=
    Builder.linked_run_eq assemble_greeter reached_greetingLoader greeting_mem_greetingLoader hlink
  exact ⟨assemble_greeter, image, g, hlink, hg, hrun⟩

end StackMachine
