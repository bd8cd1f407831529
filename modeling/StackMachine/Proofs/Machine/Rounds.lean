import StackMachine.Machine.Run
import StackMachine.Proofs.Code.Sequence
import StackMachine.Proofs.Machine.EffectOutcome

/-!
# Rounds and runs

`round_cases` says once what a round can come to, and `round_effect` what it has done over sound memory.  What every
round keeps, every run keeps (`Run.advance_induction`), and a run that has ended came to its end in its last round
(`exists_last_round`).  Over sound memory a run never changes the shape of memory (`advance_sameShape`), and after `n`
rounds a run that goes on has begun `n` instructions (`executed_of_advance`).
-/

namespace StackMachine

/-- Where a run stands after an instruction that went through. -/
def Control.resume (behind : Nat) (s : State) : Control → Run
  | .next => .running behind s
  | .jump target => .running target s
  | .halt => .returned s

@[simp] theorem state_resume (behind : Nat) (s : State) (control : Control) :
    (control.resume behind s).state = s := by
  cases control <;> rfl

/-- The state in which the instruction of a round is carried out. -/
def State.count (s : State) : State :=
  { s with executed := s.executed + 1 }

/-- What a round comes to. -/
theorem round_eq (f : Function) (limit : Option UInt64) (ip : Nat) (s : State) :
    Run.round f limit ip s =
      if s.reachedLimit limit then .trapped ⟨.instructionLimitExceeded, ip⟩ s
      else
        match Instruction.decodeAt f.code ip with
        | .error e => .trapped ⟨e.fault, ip⟩ s
        | .ok i =>
          match i.execute f s.count with
          | .ok control t => control.resume (ip + i.length) t
          | .error fault t => .trapped ⟨fault, ip⟩ t := by
  unfold Run.round
  split
  · rfl
  · cases Instruction.decodeAt f.code ip with
    | error e => rfl
    | ok i =>
      dsimp only
      rw [State.count]
      cases i.execute f { s with executed := s.executed + 1 } with
      | error fault t => rfl
      | ok control t => cases control <;> rfl

/-- A round ends at the limit, or where no instruction is read, or carries out the instruction that is read. -/
theorem round_cases (f : Function) (limit : Option UInt64) (ip : Nat) (s : State) :
    (s.reachedLimit limit = true ∧ Run.round f limit ip s = .trapped ⟨.instructionLimitExceeded, ip⟩ s) ∨
    (∃ e, Instruction.decodeAt f.code ip = .error e ∧ Run.round f limit ip s = .trapped ⟨e.fault, ip⟩ s) ∨
    ∃ i, Instruction.decodeAt f.code ip = .ok i ∧
      ((∃ fault t, i.execute f s.count = .error fault t ∧ Run.round f limit ip s = .trapped ⟨fault, ip⟩ t) ∨
        ∃ control t, i.execute f s.count = .ok control t ∧
          Run.round f limit ip s = control.resume (ip + i.length) t) := by
  rw [round_eq]
  by_cases hlimit : s.reachedLimit limit = true
  · exact .inl ⟨hlimit, by rw [if_pos hlimit]⟩
  · rw [if_neg hlimit]
    cases hdecode : Instruction.decodeAt f.code ip with
    | error e => exact .inr (.inl ⟨e, rfl, rfl⟩)
    | ok i =>
      refine .inr (.inr ⟨i, rfl, ?_⟩)
      cases hexecute : i.execute f s.count with
      | error fault t => exact .inl ⟨fault, t, rfl, by simp only [hexecute]⟩
      | ok control t => exact .inr ⟨control, t, rfl, by simp only [hexecute]⟩

/-- A round at the offset of a position of the sequence carries out the instruction there, and behind the last one finds
none. -/
theorem round_encodeAll {f : Function} {is : List Instruction} (hwf : WellFormedSequence is)
    (hcode : f.code = encodeAll is) (limit : Option UInt64) (k : Nat) (s : State) :
    Run.round f limit (offsetAt is k) s =
      if s.reachedLimit limit then .trapped ⟨.instructionLimitExceeded, offsetAt is k⟩ s
      else
        match is[k]? with
        | none => .trapped ⟨.codeOutOfBounds, offsetAt is k⟩ s
        | some i =>
          match i.execute f s.count with
          | .ok control t => control.resume (offsetAt is (k + 1)) t
          | .error fault t => .trapped ⟨fault, offsetAt is k⟩ t := by
  rw [round_eq]
  split
  · rfl
  · cases hk : is[k]? with
    | none =>
      have hend := offsetAt_of_length_le (List.getElem?_eq_none_iff.1 hk)
      rw [hcode, hend, decodeAt_encodeAll_end hwf]
      rfl
    | some i => rw [hcode, decodeAt_encodeAll hwf hk, offsetAt_succ hk]

/-! ### Many rounds -/

/-- One more round at the end of a run. -/
theorem Run.advance_succ (f : Function) (limit : Option UInt64) (rounds : Nat) (run : Run) :
    Run.advance f limit (rounds + 1) run =
      match Run.advance f limit rounds run with
      | .running ip s => Run.round f limit ip s
      | ended => ended := by
  induction rounds generalizing run with
  | zero => cases run <;> rfl
  | succ rounds ih =>
    cases run with
    | running ip s => exact ih (Run.round f limit ip s)
    | returned s | trapped trap s => rfl

/-- What each round keeps is kept by a run. -/
theorem Run.advance_induction {f : Function} {limit : Option UInt64} {motive : Run → Prop}
    (hround : ∀ ip s, motive (.running ip s) → motive (Run.round f limit ip s)) (rounds : Nat) {run : Run}
    (h : motive run) : motive (Run.advance f limit rounds run) := by
  induction rounds generalizing run with
  | zero => cases run <;> exact h
  | succ rounds ih =>
    cases run with
    | running ip s => exact ih (hround ip s h)
    | returned s | trapped trap s => exact h

/-- What a run has come to it came to in one last round, unless it has gone through none. -/
theorem exists_last_round {f : Function} {limit : Option UInt64} {rounds : Nat} {run last : Run}
    (h : Run.advance f limit rounds run = last) :
    run = last ∨
    ∃ done ip s, done < rounds ∧ Run.advance f limit done run = .running ip s ∧ Run.round f limit ip s = last := by
  induction rounds with
  | zero => cases run <;> exact .inl h
  | succ rounds ih =>
    rw [Run.advance_succ] at h
    split at h
    · rename_i ip s hrun
      exact .inr ⟨rounds, ip, s, Nat.lt_succ_self _, hrun, h⟩
    · rcases ih h with hstart | ⟨done, ip, s, hlt, hrun, hround⟩
      · exact .inl hstart
      · exact .inr ⟨done, ip, s, by omega, hrun, hround⟩

/-! ### What rounds keep -/

/-- A round over sound memory keeps its shape. -/
theorem round_sameShape {f : Function} {limit : Option UInt64} {ip : Nat} {s : State} (hs : s.memory.Sound) :
    (Run.round f limit ip s).state.memory.SameShape s.memory := by
  have hsame := Memory.SameShape.refl s.memory
  rcases round_cases f limit ip s with ⟨-, hround⟩ | ⟨e, -, hround⟩ | ⟨i, hdecode, hexecute⟩
  · rw [hround]
    exact hsame
  · rw [hround]
    exact hsame
  · have hwf := Instruction.wellFormed_of_decodeAt hdecode
    rcases hexecute with ⟨fault, t, hexecute, hround⟩ | ⟨control, t, hexecute, hround⟩
    · rw [hround]
      rcases execute_error (s := s.count) hwf hs hexecute with ⟨-, -, rfl⟩ | ⟨words, rest, -, -, -, rfl⟩
      · exact hsame
      · exact hsame
    · obtain ⟨words, rest, effect, -, harity, heffect, -, rfl⟩ := execute_ok (s := s.count) hwf hs hexecute
      rw [hround, state_resume, memory_apply]
      exact (effect_ok hwf harity heffect).1

/-- A run over sound memory keeps its shape. -/
theorem advance_sameShape {f : Function} {limit : Option UInt64} {memory : Memory} (h : memory.Sound)
    (rounds : Nat) {run : Run} (hrun : run.state.memory.SameShape memory) :
    (Run.advance f limit rounds run).state.memory.SameShape memory := by
  refine Run.advance_induction (motive := fun run => run.state.memory.SameShape memory) ?_ rounds hrun
  intro ip s hs
  exact (round_sameShape (Memory.SameShape.sound hs h)).trans hs

@[simp] theorem state_start (f : Function) (memory : Memory) (output : Array String) :
    (Run.start f memory output).state = .initial memory output := by
  unfold Run.start
  split <;> rfl

/-- A run that goes on over sound memory has memory of the same shape. -/
theorem sameShape_of_advance {f : Function} {limit : Option UInt64} {memory : Memory} (h : memory.Sound) {rounds : Nat}
    {output : Array String} {ip : Nat} {s : State}
    (hrun : Run.advance f limit rounds (Run.start f memory output) = .running ip s) : s.memory.SameShape memory := by
  have hstart : (Run.start f memory output).state.memory.SameShape memory := by
    rw [state_start]
    exact Memory.SameShape.refl memory
  have hshape : (Run.advance f limit rounds (Run.start f memory output)).state.memory.SameShape memory :=
    advance_sameShape h rounds hstart
  rwa [hrun] at hshape

theorem sound_of_advance {f : Function} {limit : Option UInt64} {memory : Memory} (h : memory.Sound) {rounds : Nat}
    {output : Array String} {ip : Nat} {s : State}
    (hrun : Run.advance f limit rounds (Run.start f memory output) = .running ip s) : s.memory.Sound :=
  (sameShape_of_advance h hrun).sound h

theorem state_advance_zero (f : Function) (limit : Option UInt64) (memory : Memory) (output : Array String) :
    (Run.advance f limit 0 (Run.start f memory output)).state = .initial memory output := by
  rw [← state_start f memory output]
  cases Run.start f memory output <;> rfl

/-- A round over sound memory that does not trap applies the effect of the instruction that is read. -/
theorem round_effect (f : Function) (limit : Option UInt64) (ip : Nat) {s : State} (hs : s.memory.Sound) :
    (∃ trap t, Run.round f limit ip s = .trapped trap t) ∨
    ∃ i words rest effect, Instruction.decodeAt f.code ip = .ok i ∧ s.stack.words = words ++ rest ∧
      words.length = i.opcode.arity ∧ i.effect f s.memory s.heapPointer words = .ok effect ∧
      Run.round f limit ip s =
        effect.control.resume (ip + i.length)
          (effect.apply { s with stack := .ofWords rest, executed := s.executed + 1 }) := by
  rcases round_cases f limit ip s with ⟨-, hround⟩ | ⟨e, -, hround⟩ | ⟨i, hdecode, hexecute⟩
  · exact .inl ⟨_, _, hround⟩
  · exact .inl ⟨_, _, hround⟩
  · rcases hexecute with ⟨fault, t, -, hround⟩ | ⟨control, t, hexecute, hround⟩
    · exact .inl ⟨_, _, hround⟩
    · have hwf := Instruction.wellFormed_of_decodeAt hdecode
      obtain ⟨words, rest, effect, hstack, harity, heffect, rfl, rfl⟩ := execute_ok (s := s.count) hwf hs hexecute
      exact .inr ⟨i, words, rest, effect, hdecode, hstack, harity, heffect, hround⟩

/-- A round that goes on has begun one instruction. -/
theorem executed_of_round {f : Function} {limit : Option UInt64} {ip next : Nat} {s t : State}
    (hs : s.memory.Sound) (h : Run.round f limit ip s = .running next t) : t.executed = s.executed + 1 := by
  rcases round_effect f limit ip hs with ⟨trap, u, hround⟩ | ⟨i, words, rest, effect, -, -, -, -, hround⟩
  · rw [hround] at h
    cases h
  · have hstate := congrArg Run.state (hround.symm.trans h)
    rw [state_resume] at hstate
    have hexecuted := congrArg State.executed hstate
    rw [executed_apply] at hexecuted
    exact hexecuted.symm

/-- A run that still goes on after some rounds has begun as many instructions. -/
theorem executed_of_advance {f : Function} {limit : Option UInt64} {memory : Memory} (h : memory.Sound)
    {output : Array String} {rounds ip : Nat} {s : State}
    (hrun : Run.advance f limit rounds (Run.start f memory output) = .running ip s) : s.executed = rounds := by
  induction rounds generalizing ip s with
  | zero =>
    have hstate := congrArg Run.state hrun
    rw [state_advance_zero] at hstate
    cases hstate
    rfl
  | succ rounds ih =>
    rw [Run.advance_succ] at hrun
    split at hrun
    · rename_i ip' s' hprev
      rw [executed_of_round (sound_of_advance h hprev) hrun, ih hprev]
    · rename_i hended
      exact absurd hrun (hended ip s)

end StackMachine
