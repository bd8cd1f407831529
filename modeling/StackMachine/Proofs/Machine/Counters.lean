import StackMachine.Proofs.Machine.Heap

/-!
# What a run counts

A run keeps three counters.  Each of them can be told from the history of the run as well: the instructions that it has
begun (`Run.trace`), the depths of the operand stack between instructions (`Run.depths`), and the blocks that it has taken
from the heap (`Run.allocations`).  `Run.tally` tells them so, and the counters always agree with it (`summary_advance`).

The depth is the delicate one.  It is noted only when a word is pushed, also in the middle of an instruction.  But every
instruction pops before it pushes, so the depth that it leaves is the greatest that it has noted (`peakDepth_apply`).
-/

namespace StackMachine

/-! ### Histories -/

/-- What is observed of a run before each of a number of rounds. -/
def Run.gather {α : Type} (observe : Run → Option α) (f : Function) (limit : Option UInt64) (rounds : Nat) (run : Run) :
    List α :=
  (List.range rounds).filterMap fun done => observe (Run.advance f limit done run)

/-- The instruction that the next round of a run begins, and its offset. -/
def Run.dispatch? (f : Function) (limit : Option UInt64) : Run → Option (Nat × Instruction)
  | .running ip s =>
    if s.reachedLimit limit then none
    else
      match Instruction.decodeAt f.code ip with
      | .ok i => some (ip, i)
      | .error _ => none
  | _ => none

/-- The instructions that a run begins in a number of rounds, with their offsets. -/
def Run.trace (f : Function) (limit : Option UInt64) (rounds : Nat) (run : Run) : List (Nat × Instruction) :=
  Run.gather (Run.dispatch? f limit) f limit rounds run

/-- The depth of the operand stack, where a run stands between instructions. -/
def Run.depth? : Run → Option Nat
  | .running _ s | .returned s => some s.stack.depth
  | .trapped _ _ => none

/-- The depths of the operand stack between the instructions of a number of rounds, those at both ends included. -/
def Run.depths (f : Function) (limit : Option UInt64) (rounds : Nat) (run : Run) : List Nat :=
  Run.gather Run.depth? f limit (rounds + 1) run

/-- The counters of a run, told from its history. -/
def Run.tally (f : Function) (limit : Option UInt64) (rounds : Nat) (run : Run) : Summary where
  instructions := (Run.trace f limit rounds run).length
  peakDepth := (Run.depths f limit rounds run).foldl max 0
  heapAllocated := Size.total ((Run.allocations f limit rounds run).map fun block => heapSlot block.size)

theorem Run.gather_succ {α : Type} (observe : Run → Option α) (f : Function) (limit : Option UInt64) (rounds : Nat)
    (run : Run) :
    Run.gather observe f limit (rounds + 1) run =
      Run.gather observe f limit rounds run ++ (observe (Run.advance f limit rounds run)).toList := by
  rw [Run.gather, List.range_succ, List.filterMap_append, List.filterMap_cons, List.filterMap_nil]
  cases observe (Run.advance f limit rounds run) <;> rfl

/-! ### Instructions -/

theorem executed_round (f : Function) (limit : Option UInt64) (ip : Nat) {s : State} (hs : s.memory.Sound) :
    (Run.round f limit ip s).state.executed =
      s.executed + ((Run.running ip s).dispatch? f limit).toList.length := by
  rw [round_eq, Run.dispatch?]
  split
  · rfl
  · cases hdecode : Instruction.decodeAt f.code ip with
    | error e => rfl
    | ok i =>
      have hwf := Instruction.wellFormed_of_decodeAt hdecode
      dsimp only
      cases hexecute : i.execute f s.count with
      | error fault t =>
        rcases execute_error (s := s.count) hwf hs hexecute with ⟨-, -, rfl⟩ | ⟨words, rest, -, -, -, rfl⟩
        · rfl
        · rfl
      | ok control t =>
        obtain ⟨words, rest, effect, -, -, -, -, rfl⟩ := execute_ok (s := s.count) hwf hs hexecute
        rw [state_resume, executed_apply]
        rfl

theorem executed_advance (f : Function) (limit : Option UInt64) {memory : Memory} (h : memory.Sound)
    (output : Array String) (rounds : Nat) :
    (Run.advance f limit rounds (Run.start f memory output)).state.executed =
      (Run.trace f limit rounds (Run.start f memory output)).length := by
  induction rounds with
  | zero =>
    rw [state_advance_zero]
    rfl
  | succ rounds ih =>
    rw [Run.advance_succ, Run.trace, Run.gather_succ, List.length_append, ← Run.trace, ← ih]
    cases hrun : Run.advance f limit rounds (Run.start f memory output) with
    | running ip s => exact executed_round f limit ip (sound_of_advance h hrun)
    | returned s | trapped trap s => rfl

/-! ### The depth of the operand stack -/

theorem depth_apply (effect : Effect) (s : State) :
    (effect.apply s).stack.depth = effect.pushed.length + s.stack.depth := by
  simp [OperandStack.depth_eq]

private theorem peakDepth_foldl_push (words : List Word) {s : State} (h : s.stack.depth ≤ s.peakDepth) :
    (words.foldl State.push s).peakDepth = max s.peakDepth (words.length + s.stack.depth) := by
  induction words generalizing s with
  | nil =>
    rw [List.foldl_nil, List.length_nil]
    omega
  | cons word words ih =>
    have hpeak : (s.push word).peakDepth = max s.peakDepth (s.stack.depth + 1) := rfl
    have hdepth : (s.push word).stack.depth = s.stack.depth + 1 := rfl
    rw [List.foldl_cons, ih (by omega), hpeak, hdepth, List.length_cons]
    omega

/-- The greatest depth that an effect notes is the one that it leaves. -/
theorem peakDepth_apply (effect : Effect) {s : State} (h : s.stack.depth ≤ s.peakDepth) :
    (effect.apply s).peakDepth = max s.peakDepth (effect.apply s).stack.depth := by
  rw [depth_apply, Effect.apply]
  exact peakDepth_foldl_push effect.pushed h

theorem peakDepth_round (f : Function) (limit : Option UInt64) (ip : Nat) {s : State} (hs : s.memory.Sound)
    (h : s.stack.depth ≤ s.peakDepth) :
    (Run.round f limit ip s).state.peakDepth = (Run.round f limit ip s).depth?.toList.foldl max s.peakDepth := by
  rcases round_cases f limit ip s with ⟨-, hround⟩ | ⟨e, -, hround⟩ | ⟨i, hdecode, hexecute⟩
  · rw [hround]
    rfl
  · rw [hround]
    rfl
  · have hwf := Instruction.wellFormed_of_decodeAt hdecode
    rcases hexecute with ⟨fault, t, hexecute, hround⟩ | ⟨control, t, hexecute, hround⟩
    · rw [hround]
      rcases execute_error (s := s.count) hwf hs hexecute with ⟨-, -, rfl⟩ | ⟨words, rest, -, -, -, rfl⟩
      · rfl
      · rfl
    · obtain ⟨words, rest, effect, hstack, -, -, -, rfl⟩ := execute_ok (s := s.count) hwf hs hexecute
      have hlength := congrArg List.length hstack
      rw [List.length_append, ← OperandStack.depth_eq] at hlength
      have hbelow : (OperandStack.ofWords rest).depth ≤ s.peakDepth := by
        have hdepth : s.count.stack.depth = s.stack.depth := rfl
        rw [OperandStack.depth_eq, OperandStack.words_ofWords]
        omega
      have hleft : ∀ t : State, (control.resume (ip + i.length) t).depth? = some t.stack.depth := by
        intro t
        cases control <;> rfl
      rw [hround, state_resume, hleft]
      exact peakDepth_apply effect (s := { s.count with stack := .ofWords rest }) hbelow

theorem peakDepth_advance (f : Function) (limit : Option UInt64) {memory : Memory} (h : memory.Sound)
    (output : Array String) (rounds : Nat) :
    (Run.advance f limit rounds (Run.start f memory output)).state.peakDepth =
      (Run.depths f limit rounds (Run.start f memory output)).foldl max 0 ∧
    ∀ depth, (Run.advance f limit rounds (Run.start f memory output)).depth? = some depth →
      depth ≤ (Run.advance f limit rounds (Run.start f memory output)).state.peakDepth := by
  induction rounds with
  | zero =>
    rw [Run.depths, Run.gather_succ]
    unfold Run.start
    split
    · refine ⟨rfl, ?_⟩
      rintro depth ⟨⟩
      exact Nat.le_refl 0
    · exact ⟨rfl, nofun⟩
  | succ rounds ih =>
    obtain ⟨hpeak, hdepth⟩ := ih
    rw [Run.depths, Run.gather_succ, List.foldl_append, ← Run.depths, ← hpeak, Run.advance_succ]
    cases hrun : Run.advance f limit rounds (Run.start f memory output) with
    | running ip s =>
      rw [hrun] at hdepth
      have hround := peakDepth_round f limit ip (sound_of_advance h hrun) (hdepth _ rfl)
      refine ⟨hround, fun depth hsome => ?_⟩
      rw [hround, hsome]
      exact Nat.le_max_right _ _
    | returned s =>
      rw [hrun] at hdepth
      exact ⟨(Nat.max_eq_left (hdepth _ rfl)).symm, hdepth⟩
    | trapped trap s => exact ⟨rfl, nofun⟩

/-! ### The heap -/

theorem heapAllocated_round (f : Function) (limit : Option UInt64) (ip : Nat) {s : State} (hs : s.memory.Sound) :
    (Run.round f limit ip s).state.heapPointer + s.heapAllocated =
      s.heapPointer + (Run.round f limit ip s).state.heapAllocated := by
  rcases round_effect f limit ip hs with ⟨trap, t, hround⟩ | ⟨i, words, rest, effect, -, -, -, -, hround⟩
  · have huntouched := (untouched_of_round hs hround).2
    rw [hround]
    dsimp only [Run.state]
    rw [huntouched.heapPointer, huntouched.heapAllocated]
  · rw [hround, state_resume, heapPointer_apply, heapAllocated_apply]
    dsimp only
    omega

theorem heapPointer_advance (f : Function) (limit : Option UInt64) {memory : Memory} (h : memory.Sound)
    (output : Array String) (rounds : Nat) :
    (Run.advance f limit rounds (Run.start f memory output)).state.heapPointer =
      memory.layout.heapStart + (Run.advance f limit rounds (Run.start f memory output)).state.heapAllocated := by
  induction rounds with
  | zero =>
    rw [state_advance_zero]
    rfl
  | succ rounds ih =>
    rw [Run.advance_succ]
    cases hrun : Run.advance f limit rounds (Run.start f memory output) with
    | running ip s =>
      rw [hrun] at ih
      have hround := heapAllocated_round f limit ip (sound_of_advance h hrun)
      dsimp only [Run.state] at ih
      dsimp only
      omega
    | returned s | trapped trap s =>
      rw [hrun] at ih
      exact ih

/-- Every block that a run has taken has the length of its slot. -/
theorem length_of_mem_allocations {f : Function} {limit : Option UInt64} {memory : Memory} (h : memory.Sound)
    {output : Array String} {rounds : Nat} {block : Allocation}
    (hblock : block ∈ Run.allocations f limit rounds (Run.start f memory output)) :
    block.length = heapSlot block.size := by
  obtain ⟨done, -, hsome⟩ := List.mem_filterMap.1 hblock
  cases hrun : Run.advance f limit done (Run.start f memory output) with
  | running ip s =>
    have hshape := sameShape_of_advance h hrun
    have hle := (heapLaidOut_advance f limit h output done).heapPointer_le
    rw [hrun] at hsome hle
    rw [← hshape.layout_eq] at hle
    rcases heap_of_round f limit ip (hshape.sound h) hle with ⟨hnone, -⟩ | ⟨taken, htaken, -, hlength, -, -⟩
    · rw [hnone] at hsome
      cases hsome
    · rw [htaken] at hsome
      cases hsome
      exact hlength
  | returned s | trapped trap s =>
    rw [hrun] at hsome
    cases hsome

theorem map_length_allocations (f : Function) (limit : Option UInt64) {memory : Memory} (h : memory.Sound)
    (output : Array String) (rounds : Nat) :
    (Run.allocations f limit rounds (Run.start f memory output)).map Allocation.length =
      (Run.allocations f limit rounds (Run.start f memory output)).map fun block => heapSlot block.size :=
  List.map_congr_left fun _ hblock => length_of_mem_allocations h hblock

/-- A request fails for lack of room exactly if its slot does not fit behind the part of the heap that is taken. -/
theorem heapExhausted_of_round_iff {f : Function} {limit : Option UInt64} {ip : Nat} {s : State} {operand : Operand}
    (hs : s.memory.Sound) (hdecode : Instruction.decodeAt f.code ip = .ok ⟨.alloc, operand⟩)
    (hopen : s.reachedLimit limit = false) :
    (∃ t, Run.round f limit ip s = .trapped ⟨.heapExhausted, ip⟩ t) ↔
      ∃ size rest, s.stack.words = size :: rest ∧ s.memory.layout.stop < s.heapPointer + heapSlot size := by
  have hwf := Instruction.wellFormed_of_decodeAt hdecode
  rw [round_eq, hopen, hdecode, if_neg Bool.false_ne_true]
  dsimp only
  cases hwords : s.stack.words with
  | nil =>
    have hlack : s.count.stack.words.length < (Instruction.mk .alloc operand).opcode.arity := by
      rw [show s.count.stack.words = [] from hwords]
      exact Nat.zero_lt_one
    simp [execute_of_lt f hwf hlack]
  | cons size rest =>
    have hstack : s.count.stack.words = [size] ++ rest := hwords
    rw [execute_of_words f hwf (s := s.count) hs hstack rfl]
    unfold Instruction.effect
    dsimp only [State.count]
    by_cases hfull : s.memory.layout.stop < s.heapPointer + heapSlot size
    · simp [hfull]
    · simp [hfull, Control.resume]

/-! ### All counters -/

/-- The counters of a run are those told from its history. -/
theorem summary_advance (f : Function) (limit : Option UInt64) {memory : Memory} (h : memory.Sound)
    (output : Array String) (rounds : Nat) :
    (Run.advance f limit rounds (Run.start f memory output)).state.summary =
      Run.tally f limit rounds (Run.start f memory output) := by
  have hexecuted := executed_advance f limit h output rounds
  have hpeak := (peakDepth_advance f limit h output rounds).1
  have hpointer := heapPointer_advance f limit h output rounds
  have hheap := (heapLaidOut_advance f limit h output rounds).heapPointer_eq
  rw [map_length_allocations f limit h] at hheap
  have hallocated : (Run.advance f limit rounds (Run.start f memory output)).state.heapAllocated =
      Size.total ((Run.allocations f limit rounds (Run.start f memory output)).map fun block => heapSlot block.size) := by
    omega
  rw [State.summary, hexecuted, hpeak, hallocated]
  rfl

/-- What the counters of a run say after a number of rounds. -/
structure Run.Counted (f : Function) (limit : Option UInt64) (memory : Memory) (output : Array String) (rounds : Nat) :
    Prop where
  summary_eq : (Run.advance f limit rounds (Run.start f memory output)).state.summary =
    Run.tally f limit rounds (Run.start f memory output)
  heapPointer_eq : (Run.advance f limit rounds (Run.start f memory output)).state.heapPointer =
    memory.layout.heapStart + (Run.advance f limit rounds (Run.start f memory output)).state.heapAllocated
  heapAllocated_le : (Run.advance f limit rounds (Run.start f memory output)).state.heapAllocated ≤
    memory.layout.heapSize
  /-- A block starts behind the slots of those before it. -/
  addresses : ∀ k block, (Run.allocations f limit rounds (Run.start f memory output))[k]? = some block →
    block.address.toInt = ((memory.layout.heapStart +
      Size.total (((Run.allocations f limit rounds (Run.start f memory output)).take k).map
        fun block => heapSlot block.size) : Nat) : Int)
  exhausted : ∀ ip s operand, Run.advance f limit rounds (Run.start f memory output) = .running ip s →
    Instruction.decodeAt f.code ip = .ok ⟨.alloc, operand⟩ → s.reachedLimit limit = false →
    ((∃ t, Run.round f limit ip s = .trapped ⟨.heapExhausted, ip⟩ t) ↔
      ∃ size rest, s.stack.words = size :: rest ∧ memory.layout.heapSize - s.heapAllocated < heapSlot size)

theorem counted_advance (f : Function) (limit : Option UInt64) {memory : Memory} (h : memory.Sound)
    (output : Array String) (rounds : Nat) : Run.Counted f limit memory output rounds := by
  have hpointer := heapPointer_advance f limit h output rounds
  have hlaidOut := heapLaidOut_advance f limit h output rounds
  have hle := hlaidOut.heapPointer_le
  constructor
  case summary_eq => exact summary_advance f limit h output rounds
  case heapPointer_eq => exact hpointer
  case heapAllocated_le =>
    unfold Layout.heapSize
    omega
  case addresses =>
    intro k block hk
    have hstretch : block.stretch =
        ⟨memory.layout.heapStart +
          Size.total (((Run.allocations f limit rounds (Run.start f memory output)).map Allocation.length).take k),
          block.length⟩ := by
      have hkth := congrArg (·[k]?) hlaidOut.contiguous
      simpa [Stretch.getElem?_consecutive, hk] using hkth
    rw [hlaidOut.exact block (List.mem_of_getElem? hk), hstretch, map_length_allocations f limit h, List.map_take]
  case exhausted =>
    intro ip s operand hrun hdecode hopen
    have hshape := sameShape_of_advance h hrun
    rw [hrun] at hpointer hle
    dsimp only [Run.state] at hpointer hle
    rw [heapExhausted_of_round_iff (hshape.sound h) hdecode hopen, hshape.layout_eq]
    have hfull : ∀ size, memory.layout.stop < s.heapPointer + heapSlot size ↔
        memory.layout.heapSize - s.heapAllocated < heapSlot size := by
      intro size
      unfold Layout.heapSize
      omega
    simp only [hfull]

/-- Whatever memory holds and however long it goes on, the run of a linked function counts what it does, and an execution
that comes back gives out these counters. -/
theorem Loader.Reached.run_counted {loader : Loader} (h : loader.Reached) {image : Image}
    (hlink : loader.link = .ok image) {name : String} {g : Function} (hg : image.function? name = some g)
    {memory : Memory} (hmemory : memory.SameShape image.memory) (output : Array String) :
    (∀ limit rounds, Run.Counted g limit memory output rounds) ∧
    ∀ rounds execution summary, (image.withMemory memory).execute? rounds name output = some execution →
      execution.result = .ok summary →
      summary = Run.tally g image.config.instructionLimit rounds (Run.start g memory output) := by
  have hsound : memory.Sound := hmemory.sound (h.consistent.sound_of_link hlink)
  refine ⟨fun limit rounds => counted_advance g limit hsound output rounds, ?_⟩
  intro rounds execution summary hexecute hresult
  have hfunction : (image.withMemory memory).function? name = some g := hg
  have hcounters := summary_advance g image.config.instructionLimit hsound output rounds
  unfold Image.execute? at hexecute
  rw [hfunction] at hexecute
  dsimp only [Image.withMemory] at hexecute
  cases hrun : Run.advance g image.config.instructionLimit rounds (Run.start g memory output) with
  | running ip s =>
    rw [hrun] at hexecute
    cases hexecute
  | returned s =>
    rw [hrun] at hexecute hcounters
    cases hexecute
    cases hresult
    exact hcounters
  | trapped trap s =>
    rw [hrun] at hexecute
    cases hexecute
    cases hresult

/-- Asks for five bytes and for less than none, and returns. -/
def hoarding : Function :=
  { name := "hoarding", localOffsets := [], localSize := 0, staticData := []
    code := encodeAll [⟨.loadImmediate, .immediate 5⟩, .plain .alloc, ⟨.loadImmediate, .immediate (-3)⟩, .plain .alloc,
      .plain .ret] }

theorem Loader.Reached.run_counted_hoarding :
    ∃ image g execution, (Loader.holding hoarding).link = .ok image ∧ image.function? "hoarding" = some g ∧
      image.execute? 5 "hoarding" #[] = some execution ∧ execution.result = .ok ⟨5, 2, 12⟩ ∧
      Run.tally g none 5 (Run.start g image.memory #[]) = ⟨5, 2, 12⟩ ∧ Run.Counted g none image.memory #[] 3 := by
  have hload : hoarding.loadError? = none := by decide +kernel
  obtain ⟨image, hlink, hconfig, hg, hmemory⟩ := Loader.exists_link_holding hload rfl
  obtain ⟨hcounted, hsummary⟩ :=
    (Loader.reached_holding hoarding).run_counted hlink hg (Memory.SameShape.refl image.memory) #[]
  obtain ⟨execution, hexecute, hresult⟩ : ∃ execution, image.execute? 5 "hoarding" #[] = some execution ∧
      execution.result = .ok ⟨5, 2, 12⟩ := by
    have hname : image.function? "hoarding" = some { hoarding with patched := true } := hg
    rw [Image.execute?, hname, hconfig, hmemory]
    exact ⟨_, rfl, rfl⟩
  have htally := hsummary 5 execution _ hexecute hresult
  rw [hconfig] at htally
  exact ⟨image, _, execution, hlink, hg, hexecute, hresult, htally.symm, hcounted none 3⟩

end StackMachine
