import StackMachine.Proofs.Machine.Memory

/-!
# What an instruction does, as one value

An instruction first takes its words off the operand stack.  What it does with them is a single value, its effect: the
memory it leaves, where the run goes on, the words it pushes, the line it gives out, and the bytes it takes from the
heap.  Carrying out an instruction is just that: a lack of words is a fault that empties the operand stack
(`execute_of_lt`); a fault of the effect leaves the state without the words taken, and otherwise the effect is applied
(`execute_of_words`).

The equation needs memory whose regions lie inside the buffer, since only then can the copies of an exchange not fail
after its checks have passed.  `execute_ok` and `execute_error` turn it around.
-/

namespace StackMachine

/-- Words that an instruction takes off the operand stack. -/
def Opcode.arity : Opcode → Nat
  | .ret | .branch | .loadImmediate | .loadLocalAddress | .loadStaticAddress => 0
  | .branchIfFalse | .derefInteger | .derefPointer | .dup | .alloc | .output => 1
  | .storeInteger | .storePointer | .arithmetic _ | .comparison _ | .swap | .outputString => 2
  | .exchangeBytes | .copyBytes => 3

/-- What an instruction does with the words it has taken. -/
structure Effect where
  memory : Memory
  control : Control := .next
  /-- In the order in which they are pushed. -/
  pushed : List Word := []
  line : Option String := none
  /-- Bytes taken from the heap. -/
  taken : Nat := 0

/-- Where a branch goes on. -/
def jumpTo (target : Word) : Except Fault Control :=
  if 0 ≤ target.toInt then .ok (.jump target.toInt.toNat) else .error .codeOutOfBounds

/-- Bytes that a request takes from the heap. -/
def heapSlot (size : Word) : Nat :=
  roundUp (max 1 size.toInt).toNat wordSize

/-- The effect of an instruction on the words it has taken, the top one first. -/
def Instruction.effect (f : Function) (i : Instruction) (memory : Memory) (heapPointer : Nat) (words : List Word) :
    Except Fault Effect :=
  match i.opcode, i.operand, words with
  | .ret, _, _ => .ok { memory, control := .halt }
  | .branch, .codeAddress target, _ => (jumpTo target).map fun control => { memory, control }
  | .branchIfFalse, .codeAddress target, [condition] =>
    if condition = 0 then (jumpTo target).map fun control => { memory, control } else .ok { memory }
  | .loadImmediate, .immediate value, _ => .ok { memory, pushed := [value] }
  | .loadLocalAddress, .localIndex index, _ =>
    match f.localOffsets[index.toNat]? with
    | some offset => .ok { memory, pushed := [addressWord (memory.layout.stackStart + offset.toNat)] }
    | none => .error (.invalidLocal index)
  | .loadStaticAddress, .dataAddress address, _ => .ok { memory, pushed := [address] }
  | .storeInteger, _, [value, address] => (memory.store address value).map fun memory => { memory }
  | .storePointer, _, [value, address] => (memory.store address value).map fun memory => { memory }
  | .derefInteger, _, [address] => (memory.load address).map fun value => { memory, pushed := [value] }
  | .derefPointer, _, [address] => (memory.load address).map fun value => { memory, pushed := [value] }
  | .arithmetic operation, _, [right, left] =>
    (operation.apply left right).map fun result => { memory, pushed := [result] }
  | .comparison relation, _, [right, left] =>
    .ok { memory, pushed := [if relation.holds left right then 1 else 0] }
  | .dup, _, [value] => .ok { memory, pushed := [value, value] }
  | .swap, _, [upper, lower] => .ok { memory, pushed := [upper, lower] }
  | .exchangeBytes, _, [size, first, second] =>
    (memory.exchange (f.stackTop memory.layout) first second size).map fun memory => { memory }
  | .alloc, _, [size] =>
    if memory.layout.stop < heapPointer + heapSlot size then .error .heapExhausted
    else .ok { memory, pushed := [addressWord heapPointer], taken := heapSlot size }
  | .outputString, _, [size, address] =>
    match memory.slice address size with
    | .error fault => .error fault
    | .ok bytes =>
      match decodeUtf8? bytes with
      | some text => .ok { memory, line := some text }
      | none => .error .invalidUtf8
  | .copyBytes, _, [size, target, source] => (memory.copy source target size).map fun memory => { memory }
  | .output, _, [value] => .ok { memory, line := some (decimal value.toInt) }
  | opcode, _, _ => .error (.invalidOpcode opcode.byte)

/-- The state with one more word on the operand stack. -/
def State.push (s : State) (word : Word) : State :=
  { s with stack := s.stack.push word, peakDepth := max s.peakDepth (s.stack.depth + 1) }

/-- The state after an effect. -/
def Effect.apply (effect : Effect) (s : State) : State :=
  effect.pushed.foldl State.push
    { s with
      memory := effect.memory
      output := match effect.line with
        | some line => s.output.push line
        | none => s.output
      heapPointer := s.heapPointer + effect.taken
      heapAllocated := s.heapAllocated + effect.taken }

private theorem foldl_push (words : List Word) (s : State) :
    words.foldl State.push s =
      { s with stack := words.foldl OperandStack.push s.stack, peakDepth := (words.foldl State.push s).peakDepth } := by
  induction words generalizing s with
  | nil => rfl
  | cons word words ih =>
    rw [List.foldl_cons, List.foldl_cons, ih]
    rfl

@[simp] theorem memory_apply (effect : Effect) (s : State) : (effect.apply s).memory = effect.memory := by
  rw [Effect.apply, foldl_push]

@[simp] theorem executed_apply (effect : Effect) (s : State) : (effect.apply s).executed = s.executed := by
  rw [Effect.apply, foldl_push]

@[simp] theorem heapPointer_apply (effect : Effect) (s : State) :
    (effect.apply s).heapPointer = s.heapPointer + effect.taken := by
  rw [Effect.apply, foldl_push]

@[simp] theorem heapAllocated_apply (effect : Effect) (s : State) :
    (effect.apply s).heapAllocated = s.heapAllocated + effect.taken := by
  rw [Effect.apply, foldl_push]

/-- The words that were pushed stand on top, the last one first. -/
@[simp] theorem words_apply (effect : Effect) (s : State) :
    (effect.apply s).stack.words = effect.pushed.reverse ++ s.stack.words := by
  have hwords : ∀ (words : List Word) (stack : OperandStack),
      (words.foldl OperandStack.push stack).words = words.reverse ++ stack.words := by
    intro words
    induction words with
    | nil => exact fun _ => rfl
    | cons word words ih =>
      intro stack
      rw [List.foldl_cons, ih]
      simp
  rw [Effect.apply, foldl_push]
  exact hwords _ _

/-! ### Carrying out an instruction -/

namespace Action

theorem jump_apply (target : Word) (s : State) :
    jump target s =
      match jumpTo target with
      | .ok control => .ok control s
      | .error fault => .error fault s := by
  unfold jump jumpTo
  split <;> rfl

theorem localAddress_apply (f : Function) (index : UInt8) (s : State) :
    localAddress f index s =
      match f.localOffsets[index.toNat]? with
      | some offset => .ok (addressWord (s.memory.layout.stackStart + offset.toNat)) s
      | none => .error (.invalidLocal index) s := by
  unfold localAddress
  cases f.localOffsets[index.toNat]? <;> rfl

theorem allocate_apply (size : Word) (s : State) :
    allocate size s =
      if s.memory.layout.stop < s.heapPointer + heapSlot size then .error .heapExhausted s
      else .ok (addressWord s.heapPointer)
        { s with heapPointer := s.heapPointer + heapSlot size, heapAllocated := s.heapAllocated + heapSlot size } :=
  rfl

end Action

/-- A lack of words is the only fault that an instruction then meets, and no word is left. -/
theorem execute_of_lt (f : Function) {i : Instruction} (hwf : i.WellFormed) {s : State}
    (h : s.stack.words.length < i.opcode.arity) :
    i.execute f s = .error .operandStackUnderflow { s with stack := {} } := by
  obtain ⟨opcode, operand⟩ := i
  obtain ⟨memory, output, ⟨words, depth, hdepth⟩, heapPointer, executed, peakDepth, heapAllocated⟩ := s
  cases opcode with
  | ret | branch | loadImmediate | loadLocalAddress | loadStaticAddress => exact absurd h (Nat.not_lt_zero _)
  | branchIfFalse =>
    match operand, words with
    | .codeAddress _, [] => cases hdepth; rfl
    | .none, _ | .localIndex _, _ | .immediate _, _ | .dataAddress _, _ => cases hwf
    | .codeAddress _, _ :: _ => exact absurd h (by simp [Opcode.arity])
  | derefInteger | derefPointer | dup | alloc | output =>
    match words with
    | [] => cases hdepth; rfl
    | _ :: _ => exact absurd h (by simp [Opcode.arity])
  | storeInteger | storePointer | arithmetic | comparison | swap | outputString =>
    match words with
    | [] | [_] => cases hdepth; rfl
    | _ :: _ :: _ => exact absurd h (by simp [Opcode.arity])
  | exchangeBytes | copyBytes =>
    match words with
    | [] | [_] | [_, _] => cases hdepth; rfl
    | _ :: _ :: _ :: _ => exact absurd h (by simp [Opcode.arity])

/-- With enough words an instruction has its effect on those it takes. -/
theorem execute_of_words (f : Function) {i : Instruction} (hwf : i.WellFormed) {s : State} (hs : s.memory.Sound)
    {words rest : List Word} (hstack : s.stack.words = words ++ rest) (harity : words.length = i.opcode.arity) :
    i.execute f s =
      match i.effect f s.memory s.heapPointer words with
      | .ok effect => .ok effect.control (effect.apply { s with stack := .ofWords rest })
      | .error fault => .error fault { s with stack := .ofWords rest } := by
  obtain ⟨opcode, operand⟩ := i
  obtain ⟨memory, output, ⟨all, depth, hdepth⟩, heapPointer, executed, peakDepth, heapAllocated⟩ := s
  cases hdepth
  cases hstack
  -- every case names the words that are taken; what follows the pops is then computed
  cases opcode with
  | ret =>
    match words, harity with
    | [], _ => rfl
  | branch =>
    match operand, words, harity with
    | .codeAddress target, [], _ =>
      show Action.jump target _ = _
      rw [Action.jump_apply]
      unfold Instruction.effect
      dsimp only
      cases jumpTo target <;> rfl
    | .none, _, _ | .localIndex _, _, _ | .immediate _, _, _ | .dataAddress _, _, _ => cases hwf
  | branchIfFalse =>
    match operand, words, harity with
    | .codeAddress target, [condition], _ =>
      unfold Instruction.effect
      by_cases hcondition : condition = 0
      · subst hcondition
        show Action.jump target _ = _
        rw [Action.jump_apply]
        dsimp only
        rw [if_pos rfl]
        cases jumpTo target <;> rfl
      · dsimp only
        rw [if_neg hcondition]
        show (if condition = 0 then Action.jump target else pure .next : Action Control) _ = _
        rw [if_neg hcondition]
        rfl
    | .none, _, _ | .localIndex _, _, _ | .immediate _, _, _ | .dataAddress _, _, _ => cases hwf
  | loadImmediate =>
    match operand, words, harity with
    | .immediate _, [], _ => rfl
    | .none, _, _ | .localIndex _, _, _ | .codeAddress _, _, _ | .dataAddress _, _, _ => cases hwf
  | loadLocalAddress =>
    match operand, words, harity with
    | .localIndex index, [], _ =>
      show EStateM.bind (Action.localAddress f index) _ _ = _
      unfold EStateM.bind
      rw [Action.localAddress_apply]
      unfold Instruction.effect
      dsimp only
      cases f.localOffsets[index.toNat]? <;> rfl
    | .none, _, _ | .immediate _, _, _ | .codeAddress _, _, _ | .dataAddress _, _, _ => cases hwf
  | loadStaticAddress =>
    match operand, words, harity with
    | .dataAddress _, [], _ => rfl
    | .none, _, _ | .localIndex _, _, _ | .immediate _, _, _ | .codeAddress _, _, _ => cases hwf
  | storeInteger | storePointer =>
    match words, harity with
    | [value, address], _ =>
      show EStateM.bind (Action.store address value) _ _ = _
      unfold EStateM.bind
      rw [Action.store_apply]
      unfold Instruction.effect
      dsimp only
      cases memory.store address value <;> rfl
  | derefInteger | derefPointer =>
    match words, harity with
    | [address], _ =>
      show EStateM.bind (Action.require (memory.load address)) _ _ = _
      unfold EStateM.bind Instruction.effect
      dsimp only
      cases memory.load address <;> rfl
  | arithmetic operation =>
    match words, harity with
    | [right, left], _ =>
      show EStateM.bind (Action.require (operation.apply left right)) _ _ = _
      unfold EStateM.bind Instruction.effect
      dsimp only
      cases operation.apply left right <;> rfl
  | comparison relation =>
    match words, harity with
    | [right, left], _ => rfl
  | dup =>
    match words, harity with
    | [value], _ => rfl
  | swap =>
    match words, harity with
    | [upper, lower], _ => rfl
  | exchangeBytes =>
    match words, harity with
    | [size, first, second], _ =>
      show EStateM.bind (Action.exchange (f.stackTop memory.layout) first second size) _ _ = _
      unfold EStateM.bind
      rw [Action.exchange_apply]
      · unfold Instruction.effect
        dsimp only
        cases memory.exchange (f.stackTop memory.layout) first second size <;> rfl
      · exact hs
  | alloc =>
    match words, harity with
    | [size], _ =>
      show EStateM.bind (Action.allocate size) _ _ = _
      unfold EStateM.bind
      rw [Action.allocate_apply]
      unfold Instruction.effect
      dsimp only
      by_cases hfull : memory.layout.stop < heapPointer + heapSlot size
      · rw [if_pos hfull, if_pos hfull]
        rfl
      · rw [if_neg hfull, if_neg hfull]
        rfl
  | outputString =>
    match words, harity with
    | [size, address], _ =>
      show EStateM.bind (Action.require (memory.slice address size)) _ _ = _
      unfold EStateM.bind Instruction.effect
      dsimp only
      cases memory.slice address size with
      | error fault => rfl
      | ok bytes =>
        show EStateM.bind (Action.emitText bytes) _ _ = _
        unfold EStateM.bind Action.emitText
        dsimp only
        cases decodeUtf8? bytes <;> rfl
  | copyBytes =>
    match words, harity with
    | [size, target, source], _ =>
      show EStateM.bind (Action.copy source target size) _ _ = _
      unfold EStateM.bind
      rw [Action.copy_apply]
      unfold Instruction.effect
      dsimp only
      cases memory.copy source target size <;> rfl
  | output =>
    match words, harity with
    | [value], _ => rfl

/-- What an instruction did that went through. -/
theorem execute_ok {f : Function} {i : Instruction} (hwf : i.WellFormed) {s t : State} (hs : s.memory.Sound)
    {control : Control} (h : i.execute f s = .ok control t) :
    ∃ words rest effect, s.stack.words = words ++ rest ∧ words.length = i.opcode.arity ∧
      i.effect f s.memory s.heapPointer words = .ok effect ∧ control = effect.control ∧
      t = effect.apply { s with stack := .ofWords rest } := by
  by_cases hlt : s.stack.words.length < i.opcode.arity
  · rw [execute_of_lt f hwf hlt] at h
    cases h
  · have hsplit := (List.take_append_drop i.opcode.arity s.stack.words).symm
    have harity : (s.stack.words.take i.opcode.arity).length = i.opcode.arity := by
      rw [List.length_take]
      omega
    rw [execute_of_words f hwf hs hsplit harity] at h
    split at h
    · rename_i effect heffect
      cases h
      exact ⟨_, _, effect, hsplit, harity, heffect, rfl, rfl⟩
    · cases h

/-- An instruction that met a fault has only taken words off the operand stack. -/
theorem execute_error {f : Function} {i : Instruction} (hwf : i.WellFormed) {s t : State} (hs : s.memory.Sound)
    {fault : Fault} (h : i.execute f s = .error fault t) :
    (fault = .operandStackUnderflow ∧ s.stack.words.length < i.opcode.arity ∧ t = { s with stack := {} }) ∨
    ∃ words rest, s.stack.words = words ++ rest ∧ words.length = i.opcode.arity ∧
      i.effect f s.memory s.heapPointer words = .error fault ∧ t = { s with stack := .ofWords rest } := by
  by_cases hlt : s.stack.words.length < i.opcode.arity
  · rw [execute_of_lt f hwf hlt] at h
    cases h
    exact .inl ⟨rfl, hlt, rfl⟩
  · have hsplit := (List.take_append_drop i.opcode.arity s.stack.words).symm
    have harity : (s.stack.words.take i.opcode.arity).length = i.opcode.arity := by
      rw [List.length_take]
      omega
    rw [execute_of_words f hwf hs hsplit harity] at h
    split at h
    · cases h
    · rename_i heffect
      cases h
      exact .inr ⟨_, _, hsplit, harity, heffect, rfl⟩

end StackMachine
