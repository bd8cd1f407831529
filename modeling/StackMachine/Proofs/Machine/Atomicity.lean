import StackMachine.Proofs.Link.Linking
import StackMachine.Proofs.Machine.Rounds

/-!
# Faults leave no trace

An instruction that meets a fault has taken words off the operand stack and done nothing else (`untouched_of_execute`):
memory, output and heap are those from before it.  So a run that traps leaves what the last completed instruction has
left (`Run.TrapsLeaving`).  Which instruction that is cannot be told from the offset of the trap alone, since a loop may
have come by this offset before; it is the one before the round that traps.

This rests on the order of checks and writes inside each instruction, and for an exchange on the shape of linked memory:
its three copies come after its checks and cannot fail any more.
-/

namespace StackMachine

/-- Two states that agree in everything that outlives a run and in the heap. -/
structure State.Untouched (before after : State) : Prop where
  memory : after.memory = before.memory
  output : after.output = before.output
  heapPointer : after.heapPointer = before.heapPointer
  heapAllocated : after.heapAllocated = before.heapAllocated

theorem State.Untouched.refl (s : State) : s.Untouched s :=
  ⟨rfl, rfl, rfl, rfl⟩

/-- An instruction that meets a fault changes only the operand stack. -/
theorem untouched_of_execute {f : Function} {i : Instruction} (hwf : i.WellFormed) {s t : State}
    (hs : s.memory.Sound) {fault : Fault} (h : i.execute f s = .error fault t) : s.Untouched t := by
  rcases execute_error hwf hs h with ⟨-, -, rfl⟩ | ⟨words, rest, -, -, -, rfl⟩
  · exact ⟨rfl, rfl, rfl, rfl⟩
  · exact ⟨rfl, rfl, rfl, rfl⟩

/-- A round that traps does so at its own offset, and changes at most the operand stack and the count. -/
theorem untouched_of_round {f : Function} {limit : Option UInt64} {ip : Nat} {s t : State} {trap : Trap}
    (hs : s.memory.Sound) (h : Run.round f limit ip s = .trapped trap t) : trap.ip = ip ∧ s.Untouched t := by
  rcases round_cases f limit ip s with ⟨-, hround⟩ | ⟨e, -, hround⟩ | ⟨i, hdecode, hexecute⟩
  · rw [hround] at h
    cases h
    exact ⟨rfl, State.Untouched.refl s⟩
  · rw [hround] at h
    cases h
    exact ⟨rfl, State.Untouched.refl s⟩
  · rcases hexecute with ⟨fault, u, hexecute, hround⟩ | ⟨control, u, -, hround⟩
    · rw [hround] at h
      cases h
      have hcount := untouched_of_execute (s := s.count) (Instruction.wellFormed_of_decodeAt hdecode) hs hexecute
      exact ⟨rfl, hcount.memory, hcount.output, hcount.heapPointer, hcount.heapAllocated⟩
    · rw [hround] at h
      cases control <;> cases h

/-- The memory and the lines that a run leaves with a trap. -/
inductive Run.TrapsLeaving (f : Function) (limit : Option UInt64) (memory : Memory) (output : Array String) (rounds : Nat)
    (trap : Trap) : Memory → Array String → Prop
  /-- The frame does not fit, and no instruction is begun. -/
  | frame (hframe : memory.layout.heapStart < f.stackTop memory.layout) (htrap : trap = ⟨.stackOverflow, 0⟩) :
      TrapsLeaving f limit memory output rounds trap memory output
  /-- The round behind the last completed instruction traps, and they are those that this instruction has left. -/
  | round {completed : Nat} {s t : State} (hlt : completed < rounds)
      (hrun : Run.advance f limit completed (Run.start f memory output) = .running trap.ip s)
      (hexecuted : s.executed = completed) (hround : Run.round f limit trap.ip s = .trapped trap t)
      (huntouched : s.Untouched t) : TrapsLeaving f limit memory output rounds trap s.memory s.output

theorem trapsLeaving_of_trapped {f : Function} {limit : Option UInt64} {memory : Memory} (h : memory.Sound)
    {rounds : Nat} {output : Array String} {trap : Trap} {t : State}
    (hrun : Run.advance f limit rounds (Run.start f memory output) = .trapped trap t) :
    Run.TrapsLeaving f limit memory output rounds trap t.memory t.output := by
  rcases exists_last_round hrun with hstart | ⟨completed, ip, s, hlt, hrun, hround⟩
  · unfold Run.start at hstart
    split at hstart
    · cases hstart
    · rename_i hframe
      cases hstart
      exact .frame (Nat.lt_of_not_le hframe) rfl
  · obtain ⟨rfl, huntouched⟩ := untouched_of_round (sound_of_advance h hrun) hround
    rw [huntouched.memory, huntouched.output]
    exact .round hlt hrun (executed_of_advance h hrun) hround huntouched

/-! ### Executions -/

/-- What an execution that has trapped leaves. -/
private theorem execute?_trapped {image : Image} {name : String} {g : Function} (hg : image.function? name = some g)
    (hmemory : image.memory.Sound) {rounds : Nat} {output : Array String} {execution : Execution} {trap : Trap}
    (h : image.execute? rounds name output = some execution) (htrap : execution.result = .error (.trap trap)) :
    Run.TrapsLeaving g image.config.instructionLimit image.memory output rounds trap execution.image.memory
      execution.output := by
  unfold Image.execute? at h
  rw [hg] at h
  dsimp only at h
  cases hrun : Run.advance g image.config.instructionLimit rounds (Run.start g image.memory output) with
  | running ip s =>
    rw [hrun] at h
    cases h
  | returned s =>
    rw [hrun] at h
    cases h
    cases htrap
  | trapped reached t =>
    rw [hrun] at h
    cases h
    cases htrap
    exact trapsLeaving_of_trapped hmemory hrun

open StackMachine.Action in
/-- In every state that a linked function can come to, an instruction that meets a fault leaves memory, output and heap
as they were; an execution that traps leaves what its last completed instruction left; and the copies of an exchange go
through once its checks have passed. -/
theorem Loader.Reached.trap_atomic {loader : Loader} (h : loader.Reached) {image : Image}
    (hlink : loader.link = .ok image) {name : String} {g : Function} (hg : image.function? name = some g)
    {memory : Memory} (hmemory : memory.SameShape image.memory) (output : Array String) :
    (∀ limit rounds ip s, Run.advance g limit rounds (Run.start g memory output) = .running ip s →
      ∀ code offset i, Instruction.decodeAt code offset = .ok i →
        ∀ fault t, i.execute g s.count = .error fault t → s.Untouched t) ∧
    (∀ rounds execution trap, (image.withMemory memory).execute? rounds name output = some execution →
      execution.result = .error (.trap trap) →
      Run.TrapsLeaving g image.config.instructionLimit memory output rounds trap execution.image.memory
        execution.output) ∧
    (∀ limit rounds ip s, Run.advance g limit rounds (Run.start g memory output) = .running ip s →
      ∀ stack first second size, s.memory.check first size = .ok () → s.memory.check second size = .ok () →
        g.stackTop s.memory.layout + Word.index size ≤ s.memory.layout.heapStart →
        ∃ t, (do copy first (addressWord (g.stackTop s.memory.layout)) size
                 copy second first size
                 copy (addressWord (g.stackTop s.memory.layout)) second size : Action Unit)
              { s.count with stack } = .ok () t) := by
  have hsound : memory.Sound := hmemory.sound (h.consistent.sound_of_link hlink)
  refine ⟨?_, ?_, ?_⟩
  · intro limit rounds ip s hrun code offset i hdecode fault t hexecute
    have hs : s.memory.Sound := sound_of_advance hsound hrun
    have huntouched := untouched_of_execute (s := s.count) (Instruction.wellFormed_of_decodeAt hdecode) hs hexecute
    exact ⟨huntouched.memory, huntouched.output, huntouched.heapPointer, huntouched.heapAllocated⟩
  · intro rounds execution trap hexecute htrap
    have hg' : (image.withMemory memory).function? name = some g := hg
    exact execute?_trapped hg' hsound hexecute htrap
  · intro limit rounds ip s hrun stack first second size hfirst hsecond hroom
    have hs : s.memory.Sound := sound_of_advance hsound hrun
    exact ⟨_, copies_of_holds (s := { s.count with stack }) hs (Memory.holds_of_check hfirst)
      (Memory.holds_of_check hsecond) hroom⟩

/-- Takes half of the heap again and again, and gives out where. -/
def draining : Function :=
  { name := "draining", localOffsets := [], localSize := 0, staticData := []
    code := encodeAll [⟨.loadImmediate, .immediate 1024⟩, .plain .alloc, .plain .output, ⟨.branch, .codeAddress 0⟩] }

/-- Asking for a third half traps where the first two were taken, and leaves what the second turn of the loop has left.
The two halves can be exchanged there, through all of the stack region. -/
theorem Loader.Reached.trap_atomic_draining :
    ∃ image g execution s t u, (Loader.holding draining).link = .ok image ∧ image.function? "draining" = some g ∧
      Run.advance g none 9 (Run.start g image.memory #[]) = .running 5 s ∧ s.output = #["1024", "2048"] ∧
      (Instruction.plain .alloc).execute g s.count = .error .heapExhausted t ∧ s.Untouched t ∧
      image.execute? 10 "draining" #[] = some execution ∧ execution.result = .error (.trap ⟨.heapExhausted, 5⟩) ∧
      execution.output = #["1024", "2048"] ∧
      Run.TrapsLeaving g none image.memory #[] 10 ⟨.heapExhausted, 5⟩ execution.image.memory execution.output ∧
      (do Action.copy 1024 (addressWord (g.stackTop s.memory.layout)) 1024
          Action.copy 2048 1024 1024
          Action.copy (addressWord (g.stackTop s.memory.layout)) 2048 1024 : Action Unit)
        { s.count with stack := {} } = .ok () u := by
  have hload : draining.loadError? = none := by decide +kernel
  obtain ⟨image, hlink, hconfig, hg, hmemory⟩ := Loader.exists_link_holding hload rfl
  obtain ⟨hstep, htrapped, hcopies⟩ :=
    (Loader.reached_holding draining).trap_atomic hlink hg (Memory.SameShape.refl image.memory) #[]
  obtain ⟨s, t, hrun, houtput, hkept, hexecute⟩ : ∃ s t,
      Run.advance { draining with patched := true } none 9 (Run.start { draining with patched := true } image.memory #[]) =
        .running 5 s ∧ s.output = #["1024", "2048"] ∧ s.memory = image.memory ∧
      (Instruction.plain .alloc).execute { draining with patched := true } s.count = .error .heapExhausted t := by
    rw [hmemory]
    exact ⟨_, _, rfl, rfl, rfl, rfl⟩
  have huntouched : s.Untouched t := hstep none 9 5 s hrun draining.code 5 (.plain .alloc) rfl .heapExhausted t hexecute
  obtain ⟨execution, hexecution, hresult, hlines⟩ : ∃ execution, image.execute? 10 "draining" #[] = some execution ∧
      execution.result = .error (.trap ⟨.heapExhausted, 5⟩) ∧ execution.output = #["1024", "2048"] := by
    have hname : image.function? "draining" = some { draining with patched := true } := hg
    rw [Image.execute?, hname, hconfig, hmemory]
    exact ⟨_, rfl, rfl, rfl⟩
  have hleaving := htrapped 10 execution _ hexecution hresult
  rw [hconfig] at hleaving
  have hcheck : ∀ address : Word, 0 ≤ address.toInt → address.toInt + 1024 ≤ 3072 →
      s.memory.check address 1024 = .ok () := by
    intro address hpositive hend
    have hsize : s.memory.bytes.size = 3072 := by
      rw [hkept, hmemory]
      exact Bytes.size_zeros 3072
    exact Memory.check_of_holds ⟨hpositive, by decide, by rw [hsize]; exact hend⟩
  have hroom : Function.stackTop { draining with patched := true } s.memory.layout + Word.index 1024 ≤
      s.memory.layout.heapStart := by
    rw [hkept, hmemory]
    decide
  obtain ⟨u, hu⟩ := hcopies none 9 5 s hrun {} 1024 2048 1024 (hcheck 1024 (by decide) (by decide))
    (hcheck 2048 (by decide) (by decide)) hroom
  exact ⟨image, _, execution, s, t, u, hlink, hg, hrun, houtput, hexecute, huntouched, hexecution, hresult, hlines,
    hleaving, hu⟩

end StackMachine
