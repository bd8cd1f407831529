import StackMachine.Proofs.Machine.Rounds

/-!
# Words below the reach of an instruction

An instruction takes a fixed number of words off the operand stack.  It fails for lack of words exactly if there are fewer,
and what it does otherwise does not depend on the words below those that it takes.  Both are properties of actions
(`Action.Takes`) that go through sequencing: `Takes.pop_bind` counts a word that is popped, and `Takes.bind` puts a part
that pops nothing in front.  The instructions are then read off rule by rule (`takes_execute`); memory may be of any shape,
so the copies of an exchange may fail one by one.

Hence a run does not see what lies below its own words.  Put on top of other words it goes the same way, and leaves them
where they are, as long as it does not lack words itself (`Run.advance_raised`).
-/

namespace StackMachine

/-- The second state is the first with the words of `base` below its own.  The greatest depths are not compared, since
that of the second state counts the words of the base. -/
structure State.Raised (base : List Word) (s t : State) : Prop where
  words : t.stack.words = s.stack.words ++ base
  memory : t.memory = s.memory
  output : t.output = s.output
  heapPointer : t.heapPointer = s.heapPointer
  executed : t.executed = s.executed
  heapAllocated : t.heapAllocated = s.heapAllocated

/-- The runs stand at the same place, or have ended in the same way, in states of which the second is raised. -/
def Run.Raised (base : List Word) : Run → Run → Prop
  | .running ip s, .running ip' t => ip' = ip ∧ s.Raised base t
  | .returned s, .returned t => s.Raised base t
  | .trapped trap s, .trapped trap' t => trap' = trap ∧ s.Raised base t
  | _, _ => False

/-- The run has ended for lack of words. -/
def Run.Underflows : Run → Prop
  | .trapped trap _ => trap.fault = .operandStackUnderflow
  | _ => False

/-! ### Actions -/

namespace Action

/-- The same has come of an action in two states of which the second is raised. -/
inductive Agree {α : Type} (base : List Word) : EStateM.Result Fault State α → EStateM.Result Fault State α → Prop
  | ok (value : α) {s t : State} (h : s.Raised base t) : Agree base (.ok value s) (.ok value t)
  | error (fault : Fault) {s t : State} (h : s.Raised base t) : Agree base (.error fault s) (.error fault t)

/-- The action takes `count` words: it fails for lack of them exactly if there are fewer, and does not depend on the words
below them. -/
structure Takes {α : Type} (count : Nat) (action : Action α) : Prop where
  underflow_iff : ∀ s, (∃ t, action s = .error .operandStackUnderflow t) ↔ s.stack.words.length < count
  agree : ∀ {base s t}, s.Raised base t → count ≤ s.stack.words.length → Agree base (action s) (action t)

variable {α β : Type} {count : Nat}

/-- An action that takes no words does not fail for lack of them. -/
theorem takes_zero {action : Action α} (hfault : ∀ s t, action s ≠ .error .operandStackUnderflow t)
    (hagree : ∀ {base s t}, s.Raised base t → Agree base (action s) (action t)) : action.Takes 0 := by
  refine ⟨fun s => iff_of_false ?_ (Nat.not_lt_zero _), fun h _ => hagree h⟩
  rintro ⟨t, ht⟩
  exact hfault s t ht

theorem Takes.pop_bind {next : Word → Action β} (h : ∀ word, (next word).Takes count) :
    (pop >>= next).Takes (count + 1) := by
  constructor
  · intro s
    cases hpop : s.stack.pop? with
    | none =>
      have hfail : pop s = .error .operandStackUnderflow s := by rw [pop, hpop]
      have hempty := OperandStack.pop?_eq_none_iff.1 hpop
      rw [bind_of_error hfail, hempty]
      exact iff_of_true ⟨s, rfl⟩ (Nat.succ_pos _)
    | some popped =>
      obtain ⟨word, rest⟩ := popped
      have hok : pop s = .ok word { s with stack := rest } := by rw [pop, hpop]
      have hstack := OperandStack.pop?_eq_some_iff.1 hpop
      rw [bind_of_ok hok, (h word).underflow_iff, hstack, OperandStack.words_push, List.length_cons]
      exact Nat.succ_lt_succ_iff.symm
  · intro base s t hraised hcount
    cases hwords : s.stack.words with
    | nil =>
      rw [hwords] at hcount
      cases hcount
    | cons word rest =>
      have htop : ∀ {u : State} {below : List Word}, u.stack.words = word :: below →
          pop u = .ok word { u with stack := .ofWords below } := by
        intro u below hu
        have hpop : u.stack.pop? = some (word, .ofWords below) :=
          OperandStack.pop?_eq_some_iff.2 (OperandStack.ext hu)
        rw [pop, hpop]
      have hbelow : t.stack.words = word :: (rest ++ base) := by rw [hraised.words, hwords, List.cons_append]
      rw [bind_of_ok (htop hwords), bind_of_ok (htop hbelow)]
      refine (h word).agree ?_ ?_
      · exact ⟨rfl, hraised.memory, hraised.output, hraised.heapPointer, hraised.executed, hraised.heapAllocated⟩
      · rw [hwords] at hcount
        exact Nat.le_of_succ_le_succ hcount

theorem Takes.bind {action : Action α} {next : α → Action β} (h : action.Takes 0) (hnext : ∀ value, (next value).Takes 0) :
    (action >>= next).Takes 0 := by
  apply takes_zero
  · intro s t ht
    cases haction : action s with
    | error fault u =>
      rw [bind_of_error haction] at ht
      cases ht
      exact absurd ((h.underflow_iff s).1 ⟨t, haction⟩) (Nat.not_lt_zero _)
    | ok value u =>
      rw [bind_of_ok haction] at ht
      exact absurd (((hnext value).underflow_iff u).1 ⟨t, ht⟩) (Nat.not_lt_zero _)
  · intro base s t hraised
    have hagree := h.agree hraised (Nat.zero_le _)
    generalize hs : action s = left at hagree
    generalize ht : action t = right at hagree
    cases hagree with
    | error fault hu =>
      rw [bind_of_error hs, bind_of_error ht]
      exact .error fault hu
    | ok value hu =>
      rw [bind_of_ok hs, bind_of_ok ht]
      exact (hnext value).agree hu (Nat.zero_le _)

/-! ### The parts of instructions -/

theorem takes_pure (value : α) : (pure value : Action α).Takes 0 :=
  takes_zero nofun fun h => .ok value h

theorem takes_throw {fault : Fault} (hfault : fault ≠ .operandStackUnderflow) : (throw fault : Action α).Takes 0 :=
  takes_zero (fun _ _ h => hfault (EStateM.Result.error.inj h).1) fun h => .error fault h

theorem takes_push (word : Word) : (push word).Takes 0 := by
  refine takes_zero nofun fun h => .ok () ?_
  exact ⟨congrArg (word :: ·) h.words, h.memory, h.output, h.heapPointer, h.executed, h.heapAllocated⟩

theorem takes_emit (line : String) : (emit line).Takes 0 := by
  refine takes_zero nofun fun h => .ok () ?_
  exact ⟨h.words, h.memory, congrArg (·.push line) h.output, h.heapPointer, h.executed, h.heapAllocated⟩

theorem takes_layout : layout.Takes 0 := by
  refine takes_zero nofun fun {base s t} h => ?_
  rw [layout, layout, h.memory]
  exact .ok _ h

theorem takes_require {result : Except Fault α} (hfault : result ≠ .error .operandStackUnderflow) :
    (require result).Takes 0 := by
  cases result with
  | ok value => exact takes_zero nofun fun h => .ok value h
  | error fault =>
    exact takes_zero (fun _ _ h => hfault (by rw [(EStateM.Result.error.inj h).1])) fun h => .error fault h

theorem takes_read {access : Memory → Except Fault α}
    (hfault : ∀ memory, access memory ≠ .error .operandStackUnderflow) : (read access).Takes 0 := by
  refine takes_zero (fun s t h => ?_) fun {base s t} h => ?_
  · exact absurd (((takes_require (hfault s.memory)).underflow_iff s).1 ⟨t, h⟩) (Nat.not_lt_zero _)
  · rw [read, read, h.memory]
    exact (takes_require (hfault s.memory)).agree h (Nat.zero_le _)

theorem takes_write {check : Memory → Except Fault Unit} (hfault : ∀ memory, check memory ≠ .error .operandStackUnderflow)
    (change : Memory → Memory) : (write check change).Takes 0 := by
  refine takes_zero (fun s t h => ?_) fun {base s t} h => ?_
  · unfold write at h
    cases hcheck : check s.memory with
    | ok =>
      rw [hcheck] at h
      cases h
    | error fault =>
      rw [hcheck] at h
      cases h
      exact hfault s.memory hcheck
  · unfold write
    rw [h.memory]
    cases check s.memory with
    | ok =>
      refine .ok () ?_
      exact ⟨h.words, rfl, h.output, h.heapPointer, h.executed, h.heapAllocated⟩
    | error fault => exact .error fault h

theorem takes_allocate (size : Word) : (allocate size).Takes 0 := by
  refine takes_zero (fun s t h => ?_) fun {base s t} h => ?_
  · rw [allocate_apply] at h
    split at h <;> cases h
  · rw [allocate_apply, allocate_apply, h.memory, h.heapPointer]
    split
    · exact .error _ h
    · refine .ok _ ?_
      exact ⟨h.words, rfl, h.output, rfl, h.executed, congrArg (· + heapSlot size) h.heapAllocated⟩

theorem takes_jump (target : Word) : (jump target).Takes 0 := by
  unfold jump
  split
  · exact takes_pure _
  · exact takes_throw nofun

theorem takes_localAddress (f : Function) (index : UInt8) : (localAddress f index).Takes 0 := by
  refine takes_layout.bind fun layout => ?_
  split
  · exact takes_pure _
  · exact takes_throw nofun

theorem takes_emitText (bytes : List UInt8) : (emitText bytes).Takes 0 := by
  unfold emitText
  split
  · exact takes_emit _
  · exact takes_throw nofun

/-! Faults of memory name the stretch that was asked for. -/

theorem check_ne_underflow (memory : Memory) (address length : Word) :
    memory.check address length ≠ .error .operandStackUnderflow := by
  unfold Memory.check
  split <;> exact nofun

theorem takes_copy (source target length : Word) : (copy source target length).Takes 0 := by
  refine takes_write (fun memory h => ?_) _
  unfold Memory.checkCopy at h
  cases hsource : memory.check source length with
  | ok =>
    rw [hsource] at h
    exact check_ne_underflow memory target length h
  | error fault =>
    rw [hsource] at h
    cases h
    exact check_ne_underflow memory source length hsource

theorem takes_exchange (scratch : Nat) (first second size : Word) : (exchange scratch first second size).Takes 0 := by
  refine (takes_read fun memory => check_ne_underflow memory first size).bind fun _ => ?_
  refine (takes_read fun memory => check_ne_underflow memory second size).bind fun _ => ?_
  refine takes_layout.bind fun layout => ?_
  split
  · exact takes_throw nofun
  · exact (takes_copy _ _ _).bind fun _ => (takes_copy _ _ _).bind fun _ => takes_copy _ _ _

end Action

theorem slice_ne_underflow (memory : Memory) (address length : Word) :
    memory.slice address length ≠ .error .operandStackUnderflow := by
  rw [Memory.slice_eq]
  split <;> exact nofun

theorem load_ne_underflow (memory : Memory) (address : Word) :
    memory.load address ≠ .error .operandStackUnderflow := by
  rw [Memory.load_eq]
  split <;> exact nofun

theorem arithmetic_ne_underflow (operation : Arithmetic) (left right : Word) :
    operation.apply left right ≠ .error .operandStackUnderflow := by
  unfold Arithmetic.apply
  cases operation with
  | add | subtract | multiply | and | or | xor => exact nofun
  | divide =>
    dsimp only
    split
    · exact nofun
    · split <;> exact nofun

open StackMachine.Action in
/-- Every instruction takes the words that its opcode says. -/
theorem takes_execute (f : Function) {i : Instruction} (hwf : i.WellFormed) : (i.execute f).Takes i.opcode.arity := by
  obtain ⟨opcode, operand⟩ := i
  cases opcode with
  | ret => exact takes_pure _
  | branch =>
    cases operand with
    | codeAddress target => exact takes_jump target
    | none | localIndex | immediate | dataAddress => cases hwf
  | branchIfFalse =>
    cases operand with
    | codeAddress target =>
      refine Takes.pop_bind fun condition => ?_
      split
      · exact takes_jump target
      · exact takes_pure _
    | none | localIndex | immediate | dataAddress => cases hwf
  | loadImmediate =>
    cases operand with
    | immediate value => exact (takes_push value).bind fun _ => takes_pure _
    | none | localIndex | codeAddress | dataAddress => cases hwf
  | loadLocalAddress =>
    cases operand with
    | localIndex index =>
      exact (takes_localAddress f index).bind fun address => (takes_push address).bind fun _ => takes_pure _
    | none | immediate | codeAddress | dataAddress => cases hwf
  | loadStaticAddress =>
    cases operand with
    | dataAddress address => exact (takes_push address).bind fun _ => takes_pure _
    | none | localIndex | immediate | codeAddress => cases hwf
  | storeInteger | storePointer =>
    refine Takes.pop_bind fun value => Takes.pop_bind fun address => ?_
    exact (takes_write (check_ne_underflow · address wordLength) _).bind fun _ => takes_pure _
  | derefInteger | derefPointer =>
    refine Takes.pop_bind fun address => ?_
    refine (takes_read (load_ne_underflow · address)).bind fun value => ?_
    exact (takes_push value).bind fun _ => takes_pure _
  | arithmetic operation =>
    refine Takes.pop_bind fun right => Takes.pop_bind fun left => ?_
    refine (takes_require (arithmetic_ne_underflow operation left right)).bind fun result => ?_
    exact (takes_push result).bind fun _ => takes_pure _
  | comparison relation =>
    refine Takes.pop_bind fun right => Takes.pop_bind fun left => ?_
    exact (takes_push _).bind fun _ => takes_pure _
  | dup =>
    refine Takes.pop_bind fun value => ?_
    exact (takes_push value).bind fun _ => (takes_push value).bind fun _ => takes_pure _
  | swap =>
    refine Takes.pop_bind fun upper => Takes.pop_bind fun lower => ?_
    exact (takes_push upper).bind fun _ => (takes_push lower).bind fun _ => takes_pure _
  | exchangeBytes =>
    refine Takes.pop_bind fun size => Takes.pop_bind fun first => Takes.pop_bind fun second => ?_
    refine takes_layout.bind fun layout => ?_
    exact (takes_exchange _ first second size).bind fun _ => takes_pure _
  | alloc =>
    refine Takes.pop_bind fun size => ?_
    exact (takes_allocate size).bind fun address => (takes_push address).bind fun _ => takes_pure _
  | outputString =>
    refine Takes.pop_bind fun size => Takes.pop_bind fun address => ?_
    refine (takes_read (slice_ne_underflow · address size)).bind fun bytes => ?_
    exact (takes_emitText bytes).bind fun _ => takes_pure _
  | copyBytes =>
    refine Takes.pop_bind fun size => Takes.pop_bind fun target => Takes.pop_bind fun source => ?_
    exact (takes_copy source target size).bind fun _ => takes_pure _
  | output =>
    refine Takes.pop_bind fun value => ?_
    exact (takes_emit _).bind fun _ => takes_pure _

/-! ### Rounds and runs -/

theorem State.Raised.reachedLimit_eq {base : List Word} {s t : State} (h : s.Raised base t) (limit : Option UInt64) :
    t.reachedLimit limit = s.reachedLimit limit := by
  unfold State.reachedLimit
  rw [h.executed]

theorem State.Raised.count {base : List Word} {s t : State} (h : s.Raised base t) : s.count.Raised base t.count :=
  ⟨h.words, h.memory, h.output, h.heapPointer, congrArg (· + 1) h.executed, h.heapAllocated⟩

/-- A round that does not lack words comes to the same on top of other words. -/
theorem round_raised (f : Function) (limit : Option UInt64) (ip : Nat) {base : List Word} {s t : State}
    (h : s.Raised base t) (hfine : ¬ (Run.round f limit ip s).Underflows) :
    (Run.round f limit ip s).Raised base (Run.round f limit ip t) := by
  rw [round_eq] at hfine
  rw [round_eq, round_eq, h.reachedLimit_eq limit]
  by_cases hlimit : s.reachedLimit limit = true
  · rw [if_pos hlimit, if_pos hlimit]
    exact ⟨rfl, h⟩
  · rw [if_neg hlimit] at hfine
    rw [if_neg hlimit, if_neg hlimit]
    cases hdecode : Instruction.decodeAt f.code ip with
    | error e => exact ⟨rfl, h⟩
    | ok i =>
      have htakes := takes_execute f (Instruction.wellFormed_of_decodeAt hdecode)
      rw [hdecode] at hfine
      dsimp only at hfine ⊢
      have henough : i.opcode.arity ≤ s.count.stack.words.length := by
        refine Nat.le_of_not_lt fun hlack => ?_
        obtain ⟨u, hu⟩ := (htakes.underflow_iff s.count).2 hlack
        rw [hu] at hfine
        exact hfine rfl
      have hagree := htakes.agree h.count henough
      generalize i.execute f s.count = left at hagree
      generalize i.execute f t.count = right at hagree
      cases hagree with
      | error fault hu => exact ⟨rfl, hu⟩
      | ok control hu =>
        cases control with
        | next | jump => exact ⟨rfl, hu⟩
        | halt => exact hu

theorem Run.advance_raised (f : Function) (limit : Option UInt64) (rounds : Nat) {base : List Word} {run other : Run}
    (h : run.Raised base other) (hfine : ¬ (Run.advance f limit rounds run).Underflows) :
    (Run.advance f limit rounds run).Raised base (Run.advance f limit rounds other) := by
  induction rounds with
  | zero => cases run <;> cases other <;> exact h
  | succ rounds ih =>
    rw [Run.advance_succ] at hfine
    rw [Run.advance_succ, Run.advance_succ]
    -- a run that has ended stays as it is, so it did not lack words before the last round either
    cases hrun : Run.advance f limit rounds run with
    | running ip s =>
      rw [hrun] at ih hfine
      have hraised := ih not_false
      cases hother : Run.advance f limit rounds other with
      | running ip' t =>
        rw [hother] at hraised
        obtain ⟨rfl, hraised⟩ := hraised
        exact round_raised f limit ip' hraised hfine
      | returned | trapped =>
        rw [hother] at hraised
        cases hraised
    | returned s | trapped trap s =>
      rw [hrun] at ih hfine
      have hraised := ih hfine
      cases hother : Run.advance f limit rounds other with
      | running =>
        rw [hother] at hraised
        cases hraised
      | returned | trapped =>
        rw [hother] at hraised
        exact hraised

/-- For every code: an instruction fails for lack of words exactly if there are fewer than it takes, whatever else is wrong;
and a run that does not lack words goes the same way on top of other words and leaves these where they are. -/
theorem stack_discipline (f : Function) (limit : Option UInt64) :
    (∀ code offset i, Instruction.decodeAt code offset = .ok i → ∀ s : State,
      (∃ t, i.execute f s = .error .operandStackUnderflow t) ↔ s.stack.depth < i.opcode.arity) ∧
    ∀ (base : List Word) (s t : State), s.Raised base t → ∀ ip rounds,
      ¬ (Run.advance f limit rounds (.running ip s)).Underflows →
      (Run.advance f limit rounds (.running ip s)).Raised base (Run.advance f limit rounds (.running ip t)) := by
  refine ⟨fun code offset i hdecode s => ?_, fun base s t h ip rounds hfine => ?_⟩
  · rw [s.stack.depth_eq]
    exact (takes_execute f (Instruction.wellFormed_of_decodeAt hdecode)).underflow_iff s
  · have hstart : (Run.running ip s).Raised base (.running ip t) := ⟨rfl, h⟩
    exact Run.advance_raised f limit rounds hstart hfine

/-- Doubles the word on top. -/
def doubling : Function :=
  { name := "doubling", localOffsets := [], localSize := 0, staticData := []
    code := encodeAll [.plain .dup, .plain (.arithmetic .add), .plain .ret] }

/-- The state of a run with the given words. -/
def stateWith (words : List Word) : State :=
  { State.initial (.zeros (.ofSizes 0 8 16)) #[] with stack := .ofWords words }

theorem stack_discipline_doubling :
    Instruction.decodeAt doubling.code 1 = .ok (.plain (.arithmetic .add)) ∧
    (∃ t, (Instruction.plain (.arithmetic .add)).execute doubling (stateWith [21]) = .error .operandStackUnderflow t) ∧
    (stateWith [21]).Raised [7, 9] (stateWith [21, 7, 9]) ∧
    ∃ s t, Run.advance doubling none 3 (.running 0 (stateWith [21])) = .returned s ∧
      Run.advance doubling none 3 (.running 0 (stateWith [21, 7, 9])) = .returned t ∧
      s.stack.words = [42] ∧ s.Raised [7, 9] t := by
  obtain ⟨hunderflow, hlocal⟩ := stack_discipline doubling none
  have hdecode : Instruction.decodeAt doubling.code 1 = .ok (.plain (.arithmetic .add)) := rfl
  have hraised : (stateWith [21]).Raised [7, 9] (stateWith [21, 7, 9]) := ⟨rfl, rfl, rfl, rfl, rfl, rfl⟩
  have hlack : (stateWith [21]).stack.depth < Opcode.arity (.arithmetic .add) := by decide
  have hrun := hlocal [7, 9] (stateWith [21]) (stateWith [21, 7, 9]) hraised 0 3 not_false
  exact ⟨hdecode, (hunderflow _ _ _ hdecode _).2 hlack, hraised, _, _, rfl, rfl, rfl, hrun⟩

end StackMachine
