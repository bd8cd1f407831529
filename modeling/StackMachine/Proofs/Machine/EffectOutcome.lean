import StackMachine.Proofs.Machine.Effect

/-!
# What an effect can come to

The ways in which an instruction comes to its effect are listed once, in `Arises` (`arises_of_effect`).  So an effect keeps
the shape of memory, takes bytes from the heap only on request, and goes on elsewhere only at the operand of a branch
(`effect_ok`).  Of the faults that accepted code cannot meet it has only those that its operand explains: a
local that the frame does not have, and a branch to a negative offset (`effect_error`).  All other faults come from the
data that a run meets (`Fault.OfData`).
-/

namespace StackMachine

private theorem map_ok {α β : Type} {result : Except Fault α} {g : α → β} {value : β}
    (h : result.map g = .ok value) : ∃ a, result = .ok a ∧ g a = value := by
  cases result with
  | error fault => cases h
  | ok a => exact ⟨a, rfl, Except.ok.inj h⟩

private theorem map_error {α β : Type} {result : Except Fault α} {g : α → β} {fault : Fault}
    (h : result.map g = .error fault) : result = .error fault := by
  cases result with
  | error _ =>
    cases h
    rfl
  | ok a => cases h

private theorem jumpTo_ok {word : Word} {control : Control} (h : jumpTo word = .ok control) :
    0 ≤ word.toInt ∧ control = .jump word.toInt.toNat := by
  unfold jumpTo at h
  split at h
  · rename_i hpos
    cases h
    exact ⟨hpos, rfl⟩
  · cases h

private theorem jumpTo_error {word : Word} {fault : Fault} (h : jumpTo word = .error fault) :
    word.toInt < 0 ∧ fault = .codeOutOfBounds := by
  unfold jumpTo at h
  split at h
  · cases h
  · rename_i hneg
    cases h
    exact ⟨Int.not_le.1 hneg, rfl⟩

/-- A request gives out the address where the heap ended, and takes the bytes from there on. -/
theorem effect_alloc {f : Function} {operand : Operand} {memory : Memory} {heapPointer : Nat} {words : List Word}
    (harity : words.length = 1) {effect : Effect}
    (h : (Instruction.mk .alloc operand).effect f memory heapPointer words = .ok effect) :
    ∃ size, words = [size] ∧ heapPointer + heapSlot size ≤ memory.layout.stop ∧
      effect = { memory, pushed := [addressWord heapPointer], taken := heapSlot size } := by
  match words, harity with
  | [size], _ =>
    unfold Instruction.effect at h
    dsimp only at h
    split at h
    · cases h
    · rename_i hroom
      cases h
      exact ⟨size, rfl, Nat.le_of_not_lt hroom, rfl⟩

/-- An exchange that goes through has found the room behind the frame. -/
theorem effect_exchange {f : Function} {operand : Operand} {memory : Memory} {heapPointer : Nat} {words : List Word}
    (harity : words.length = 3) {effect : Effect}
    (h : (Instruction.mk .exchangeBytes operand).effect f memory heapPointer words = .ok effect) :
    ∃ size first second, words = [size, first, second] ∧ memory.Holds first size ∧ memory.Holds second size ∧
      f.stackTop memory.layout + Word.index size ≤ memory.layout.heapStart ∧
      effect = { memory := memory.swap (f.stackTop memory.layout) first second size } := by
  match words, harity with
  | [size, first, second], _ =>
    obtain ⟨m, hexchange, rfl⟩ := map_ok h
    unfold Memory.exchange at hexchange
    split at hexchange
    · cases hexchange
    · rename_i hfirst
      split at hexchange
      · cases hexchange
      · rename_i hsecond
        split at hexchange
        · cases hexchange
        · rename_i hroom
          cases hexchange
          exact ⟨size, first, second, rfl, Decidable.not_not.1 hfirst, Decidable.not_not.1 hsecond,
            Nat.le_of_not_lt hroom, rfl⟩

/-- Instructions that neither write to memory, nor take bytes from the heap, nor give out a line. -/
def Opcode.quiet : Opcode → Bool
  | .storeInteger | .storePointer | .exchangeBytes | .copyBytes | .alloc | .outputString | .output => false
  | _ => true

/-- The ways in which instructions come to their effects, from the words that they have taken. -/
inductive Arises (f : Function) (memory : Memory) (heapPointer : Nat) : Instruction → List Word → Effect → Prop
  | halts (operand : Operand) (words : List Word) :
      Arises f memory heapPointer ⟨.ret, operand⟩ words { memory, control := .halt }
  | jumps {i : Instruction} {target : Word} (words : List Word) (hquiet : i.opcode.quiet)
      (hoperand : i.operand = .codeAddress target) (hpos : 0 ≤ target.toInt) :
      Arises f memory heapPointer i words { memory, control := .jump target.toInt.toNat }
  | pushes {i : Instruction} (words : List Word) (hquiet : i.opcode.quiet) (pushed : List Word) :
      Arises f memory heapPointer i words { memory, pushed }
  | storesInteger (operand : Operand) {value address : Word} {next : Memory}
      (h : memory.store address value = .ok next) :
      Arises f memory heapPointer ⟨.storeInteger, operand⟩ [value, address] { memory := next }
  | storesPointer (operand : Operand) {value address : Word} {next : Memory}
      (h : memory.store address value = .ok next) :
      Arises f memory heapPointer ⟨.storePointer, operand⟩ [value, address] { memory := next }
  | copies (operand : Operand) {size target source : Word} {next : Memory}
      (h : memory.copy source target size = .ok next) :
      Arises f memory heapPointer ⟨.copyBytes, operand⟩ [size, target, source] { memory := next }
  | exchanges (operand : Operand) {size first second : Word} (hfirst : memory.Holds first size)
      (hsecond : memory.Holds second size)
      (hroom : f.stackTop memory.layout + Word.index size ≤ memory.layout.heapStart) :
      Arises f memory heapPointer ⟨.exchangeBytes, operand⟩ [size, first, second]
        { memory := memory.swap (f.stackTop memory.layout) first second size }
  | allocates (operand : Operand) {size : Word} (hroom : heapPointer + heapSlot size ≤ memory.layout.stop) :
      Arises f memory heapPointer ⟨.alloc, operand⟩ [size]
        { memory, pushed := [addressWord heapPointer], taken := heapSlot size }
  | outputsText (operand : Operand) {size address : Word} {text : String}
      (h : memory.slice address size = .ok (encodeUtf8 text)) :
      Arises f memory heapPointer ⟨.outputString, operand⟩ [size, address] { memory, line := some text }
  | outputsWord (operand : Operand) (value : Word) :
      Arises f memory heapPointer ⟨.output, operand⟩ [value] { memory, line := some (decimal value.toInt) }

theorem arises_of_effect {f : Function} {i : Instruction} (hwf : i.WellFormed) {memory : Memory} {heapPointer : Nat}
    {words : List Word} (harity : words.length = i.opcode.arity) {effect : Effect}
    (h : i.effect f memory heapPointer words = .ok effect) : Arises f memory heapPointer i words effect := by
  obtain ⟨opcode, operand⟩ := i
  -- `hwf` leaves the one kind of operand that the opcode has, and `harity` the words that it takes
  cases opcode with
  | ret =>
    cases h
    exact .halts _ _
  | branch =>
    match operand, words, harity with
    | .codeAddress word, [], _ =>
      obtain ⟨control, hjump, rfl⟩ := map_ok h
      obtain ⟨hpos, rfl⟩ := jumpTo_ok hjump
      exact .jumps _ rfl rfl hpos
    | .none, _, _ | .localIndex _, _, _ | .immediate _, _, _ | .dataAddress _, _, _ => cases hwf
  | branchIfFalse =>
    match operand, words, harity with
    | .codeAddress word, [condition], _ =>
      unfold Instruction.effect at h
      dsimp only at h
      split at h
      · obtain ⟨control, hjump, rfl⟩ := map_ok h
        obtain ⟨hpos, rfl⟩ := jumpTo_ok hjump
        exact .jumps _ rfl rfl hpos
      · cases h
        exact .pushes _ rfl _
    | .none, _, _ | .localIndex _, _, _ | .immediate _, _, _ | .dataAddress _, _, _ => cases hwf
  | loadImmediate =>
    match operand, words, harity with
    | .immediate _, [], _ =>
      cases h
      exact .pushes _ rfl _
    | .none, _, _ | .localIndex _, _, _ | .codeAddress _, _, _ | .dataAddress _, _, _ => cases hwf
  | loadLocalAddress =>
    match operand, words, harity with
    | .localIndex _, [], _ =>
      unfold Instruction.effect at h
      dsimp only at h
      split at h
      · cases h
        exact .pushes _ rfl _
      · cases h
    | .none, _, _ | .immediate _, _, _ | .codeAddress _, _, _ | .dataAddress _, _, _ => cases hwf
  | loadStaticAddress =>
    match operand, words, harity with
    | .dataAddress _, [], _ =>
      cases h
      exact .pushes _ rfl _
    | .none, _, _ | .localIndex _, _, _ | .immediate _, _, _ | .codeAddress _, _, _ => cases hwf
  | storeInteger =>
    match words, harity with
    | [value, address], _ =>
      obtain ⟨next, hstore, rfl⟩ := map_ok h
      exact .storesInteger _ hstore
  | storePointer =>
    match words, harity with
    | [value, address], _ =>
      obtain ⟨next, hstore, rfl⟩ := map_ok h
      exact .storesPointer _ hstore
  | derefInteger | derefPointer =>
    match words, harity with
    | [_], _ =>
      obtain ⟨_, -, rfl⟩ := map_ok h
      exact .pushes _ rfl _
  | arithmetic operation =>
    match words, harity with
    | [_, _], _ =>
      obtain ⟨_, -, rfl⟩ := map_ok h
      exact .pushes _ rfl _
  | comparison | swap =>
    match words, harity with
    | [_, _], _ =>
      cases h
      exact .pushes _ rfl _
  | dup =>
    match words, harity with
    | [_], _ =>
      cases h
      exact .pushes _ rfl _
  | exchangeBytes =>
    obtain ⟨size, first, second, rfl, hfirst, hsecond, hroom, rfl⟩ := effect_exchange harity h
    exact .exchanges _ hfirst hsecond hroom
  | alloc =>
    obtain ⟨size, rfl, hroom, rfl⟩ := effect_alloc harity h
    exact .allocates _ hroom
  | outputString =>
    match words, harity with
    | [size, address], _ =>
      unfold Instruction.effect at h
      dsimp only at h
      split at h
      · cases h
      · rename_i bytes hslice
        split at h
        · rename_i text htext
          cases h
          rw [decodeUtf8?_eq_some_iff] at htext
          exact .outputsText _ (htext ▸ hslice)
        · cases h
  | copyBytes =>
    match words, harity with
    | [size, target, source], _ =>
      obtain ⟨next, hcopy, rfl⟩ := map_ok h
      exact .copies _ hcopy
  | output =>
    match words, harity with
    | [value], _ =>
      cases h
      exact .outputsWord _ value

/-- An effect keeps the regions of memory and the number of its bytes, takes bytes from the heap only on request, and goes
on elsewhere only at the operand of a branch. -/
theorem effect_ok {f : Function} {i : Instruction} (hwf : i.WellFormed) {memory : Memory} {heapPointer : Nat}
    {words : List Word} (harity : words.length = i.opcode.arity) {effect : Effect}
    (h : i.effect f memory heapPointer words = .ok effect) :
    effect.memory.SameShape memory ∧ (i.opcode ≠ .alloc → effect.taken = 0) ∧
      ∀ target, effect.control = .jump target → ∃ word : Word, i.operand = .codeAddress word ∧ word.toInt = target := by
  have hsame := Memory.SameShape.refl memory
  cases arises_of_effect hwf harity h with
  | jumps _ _ hoperand hpos =>
    refine ⟨hsame, fun _ => rfl, fun target htarget => ⟨_, hoperand, ?_⟩⟩
    cases htarget
    exact (Int.toNat_of_nonneg hpos).symm
  | storesInteger _ hstore | storesPointer _ hstore =>
    obtain ⟨-, rfl⟩ := Memory.store_ok hstore
    exact ⟨memory.sameShape_overwrite _ _, fun _ => rfl, nofun⟩
  | copies _ hcopy =>
    obtain ⟨-, -, rfl⟩ := Memory.copy_ok hcopy
    exact ⟨memory.sameShape_move _ _ _, fun _ => rfl, nofun⟩
  | exchanges => exact ⟨memory.sameShape_swap _ _ _ _, fun _ => rfl, nofun⟩
  | allocates => exact ⟨hsame, fun hne => absurd rfl hne, nofun⟩
  | halts | pushes | outputsText | outputsWord => exact ⟨hsame, fun _ => rfl, nofun⟩

/-- The faults that come from the words and bytes that a run meets, and not from its code. -/
def Fault.OfData : Fault → Prop
  | .invalidOpcode _ | .invalidLocal _ | .codeOutOfBounds | .instructionLimitExceeded => False
  | _ => True

private theorem ofData_of_copy {memory : Memory} {source target length : Word} {fault : Fault}
    (h : memory.copy source target length = .error fault) : fault.OfData := by
  rw [Memory.copy_eq] at h
  split at h
  · cases h
    trivial
  · split at h
    · cases h
      trivial
    · cases h

private theorem ofData_of_exchange {memory : Memory} {scratch : Nat} {first second size : Word} {fault : Fault}
    (h : memory.exchange scratch first second size = .error fault) : fault.OfData := by
  unfold Memory.exchange at h
  split at h
  · cases h
    trivial
  · split at h
    · cases h
      trivial
    · split at h
      · cases h
        trivial
      · cases h

private theorem ofData_of_arithmetic {operation : Arithmetic} {left right : Word} {fault : Fault}
    (h : operation.apply left right = .error fault) : fault.OfData := by
  cases operation with
  | add | subtract | multiply | and | or | xor => cases h
  | divide =>
    unfold Arithmetic.apply at h
    dsimp only at h
    split at h
    · cases h
      trivial
    · split at h
      · cases h
        trivial
      · cases h

/-- A fault of an effect comes from data, or from a local that the frame does not have, or from a branch to a negative
offset. -/
theorem effect_error {f : Function} {i : Instruction} (hwf : i.WellFormed) {memory : Memory} {heapPointer : Nat}
    {words : List Word} (harity : words.length = i.opcode.arity) {fault : Fault}
    (h : i.effect f memory heapPointer words = .error fault) :
    fault.OfData ∨
    (∃ index, i.operand = .localIndex index ∧ f.localOffsets.length ≤ index.toNat ∧ fault = .invalidLocal index) ∨
    (∃ word, i.operand = .codeAddress word ∧ word.toInt < 0 ∧ fault = .codeOutOfBounds) := by
  obtain ⟨opcode, operand⟩ := i
  cases opcode with
  | ret => cases h
  | branch =>
    match operand, words, harity with
    | .codeAddress word, [], _ =>
      obtain ⟨hneg, rfl⟩ := jumpTo_error (map_error h)
      exact .inr (.inr ⟨word, rfl, hneg, rfl⟩)
    | .none, _, _ | .localIndex _, _, _ | .immediate _, _, _ | .dataAddress _, _, _ => cases hwf
  | branchIfFalse =>
    match operand, words, harity with
    | .codeAddress word, [condition], _ =>
      unfold Instruction.effect at h
      dsimp only at h
      split at h
      · obtain ⟨hneg, rfl⟩ := jumpTo_error (map_error h)
        exact .inr (.inr ⟨word, rfl, hneg, rfl⟩)
      · cases h
    | .none, _, _ | .localIndex _, _, _ | .immediate _, _, _ | .dataAddress _, _, _ => cases hwf
  | loadImmediate =>
    match operand, words, harity with
    | .immediate _, [], _ => cases h
    | .none, _, _ | .localIndex _, _, _ | .codeAddress _, _, _ | .dataAddress _, _, _ => cases hwf
  | loadLocalAddress =>
    match operand, words, harity with
    | .localIndex index, [], _ =>
      unfold Instruction.effect at h
      dsimp only at h
      split at h
      · cases h
      · rename_i hnone
        cases h
        exact .inr (.inl ⟨index, rfl, List.getElem?_eq_none_iff.1 hnone, rfl⟩)
    | .none, _, _ | .immediate _, _, _ | .codeAddress _, _, _ | .dataAddress _, _, _ => cases hwf
  | loadStaticAddress =>
    match operand, words, harity with
    | .dataAddress _, [], _ => cases h
    | .none, _, _ | .localIndex _, _, _ | .immediate _, _, _ | .codeAddress _, _, _ => cases hwf
  | storeInteger | storePointer =>
    match words, harity with
    | [value, address], _ =>
      have hstore := map_error h
      rw [Memory.store_eq] at hstore
      split at hstore
      · cases hstore
      · cases hstore
        exact .inl trivial
  | derefInteger | derefPointer =>
    match words, harity with
    | [address], _ =>
      have hload := map_error h
      rw [Memory.load_eq] at hload
      split at hload
      · cases hload
      · cases hload
        exact .inl trivial
  | arithmetic operation =>
    match words, harity with
    | [_, _], _ => exact .inl (ofData_of_arithmetic (map_error h))
  | comparison | swap =>
    match words, harity with
    | [_, _], _ => cases h
  | dup | output =>
    match words, harity with
    | [_], _ => cases h
  | exchangeBytes =>
    match words, harity with
    | [_, _, _], _ => exact .inl (ofData_of_exchange (map_error h))
  | alloc =>
    match words, harity with
    | [_], _ =>
      unfold Instruction.effect at h
      dsimp only at h
      split at h
      · cases h
        exact .inl trivial
      · cases h
  | outputString =>
    match words, harity with
    | [size, address], _ =>
      unfold Instruction.effect at h
      dsimp only at h
      rw [Memory.slice_eq] at h
      split at h
      · rename_i hslice
        split at hslice
        · cases hslice
        · cases hslice
          cases h
          exact .inl trivial
      · split at h
        · cases h
        · cases h
          exact .inl trivial
  | copyBytes =>
    match words, harity with
    | [_, _, _], _ => exact .inl (ofData_of_copy (map_error h))

end StackMachine
