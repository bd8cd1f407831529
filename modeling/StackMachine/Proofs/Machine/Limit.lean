import StackMachine.Proofs.Machine.Soundness

/-!
# The instruction limit

A run with a limit goes the same way as the run without one as long as it has begun fewer instructions than the limit
allows (`advance_of_le_limit`).  One more round finds the run ended, or ends it with the trap of the limit.  So a run
with limit `n` always comes to what the run without limit has come to after `n` rounds, cut off there if it would go on
(`comesTo_cutOff`).

The ways of ending differ by one.  An instruction that returns or meets a fault has been begun and counts; at the end of
the code nothing is begun, but the limit is checked before the code is looked at.  A run that ends with its `k`-th
instruction therefore needs a limit of `k`, and a run that comes to the end of the code after `k` instructions one of
`k + 1`: `Run.LimitedBy`.
-/

namespace StackMachine

/-- The run has returned or trapped. -/
def Run.Ended : Run → Prop
  | .running _ _ => False
  | .returned _ | .trapped _ _ => True

/-- Going through enough rounds, the run ends in the given way. -/
def Run.ComesTo (f : Function) (limit : Option UInt64) (run ended : Run) : Prop :=
  ended.Ended ∧ ∃ rounds, Run.advance f limit rounds run = ended

/-- Without a limit, the run ends with the `k`-th instruction that it begins, which returns or meets a fault. -/
def Run.EndsOn (f : Function) (run : Run) (k : Nat) (ended : Run) : Prop :=
  ended.Ended ∧ ∃ done ip s i, k = done + 1 ∧ Run.advance f none done run = .running ip s ∧
    Instruction.decodeAt f.code ip = .ok i ∧ Run.round f none ip s = ended

/-- Without a limit, the run comes to the end of the code after `k` instructions. -/
def Run.FallsOff (f : Function) (run : Run) (k : Nat) (ended : Run) : Prop :=
  ∃ s, Run.advance f none k run = .running f.code.size s ∧ Run.round f none f.code.size s = ended

/-- The run, ended by the trap of the limit if it has not ended yet. -/
def Run.cutOff : Run → Run
  | .running ip s => .trapped ⟨.instructionLimitExceeded, ip⟩ s
  | ended => ended

theorem Run.ended_cutOff (run : Run) : run.cutOff.Ended := by
  cases run <;> trivial

theorem Run.state_cutOff (run : Run) : run.cutOff.state = run.state := by
  cases run <;> rfl

theorem Run.Ended.exists_execution {run : Run} (h : run.Ended) (image : Image) :
    ∃ execution, run.execution? image = some execution := by
  cases run with
  | running ip s => cases h
  | returned s | trapped trap s => exact ⟨_, rfl⟩

/-! ### Runs that have ended -/

/-- A run that has ended goes through no further round. -/
theorem Run.advance_of_ended {f : Function} {limit : Option UInt64} {run : Run} {rounds more : Nat}
    (h : (Run.advance f limit rounds run).Ended) (hle : rounds ≤ more) :
    Run.advance f limit more run = Run.advance f limit rounds run := by
  induction hle with
  | refl => rfl
  | step _ ih =>
    rw [Run.advance_succ, ih]
    cases hrun : Run.advance f limit rounds run with
    | running ip s =>
      rw [hrun] at h
      cases h
    | returned s | trapped trap s => rfl

/-- A run ends in one way only. -/
theorem Run.ComesTo.unique {f : Function} {limit : Option UInt64} {run ended other : Run}
    (h : Run.ComesTo f limit run ended) (h' : Run.ComesTo f limit run other) : other = ended := by
  obtain ⟨hended, rounds, rfl⟩ := h
  obtain ⟨hother, more, rfl⟩ := h'
  rcases Nat.le_total rounds more with hle | hle
  · exact Run.advance_of_ended hended hle
  · exact (Run.advance_of_ended hother hle).symm

/-! ### One round under a limit -/

theorem round_of_executed_lt {f : Function} {n : UInt64} {ip : Nat} {s : State} (h : s.executed < n.toNat) :
    Run.round f (some n) ip s = Run.round f none ip s := by
  have hopen : s.reachedLimit (some n) = false := by
    simp only [State.reachedLimit, decide_eq_false_iff_not]
    omega
  have hnone : s.reachedLimit none = false := rfl
  simp only [Run.round, hopen, hnone]

theorem round_of_le_executed {f : Function} {n : UInt64} {ip : Nat} {s : State} (h : n.toNat ≤ s.executed) :
    Run.round f (some n) ip s = .trapped ⟨.instructionLimitExceeded, ip⟩ s := by
  have hreached : s.reachedLimit (some n) = true := by
    simpa only [State.reachedLimit, decide_eq_true_eq] using h
  simp only [Run.round, hreached, if_true]

/-- A round begins at most one instruction. -/
theorem executed_round_le {f : Function} {limit : Option UInt64} {ip : Nat} {s : State} (hs : s.memory.Sound) :
    (Run.round f limit ip s).state.executed ≤ s.executed + 1 := by
  rcases round_cases f limit ip s with ⟨-, hround⟩ | ⟨e, -, hround⟩ | ⟨i, hdecode, hexecute⟩
  · rw [hround]
    exact Nat.le_succ _
  · rw [hround]
    exact Nat.le_succ _
  · have hwf := Instruction.wellFormed_of_decodeAt hdecode
    rcases hexecute with ⟨fault, t, hexecute, hround⟩ | ⟨control, t, hexecute, hround⟩
    · rw [hround]
      rcases execute_error (s := s.count) hwf hs hexecute with ⟨-, -, rfl⟩ | ⟨words, rest, -, -, -, rfl⟩
      · exact Nat.le_refl _
      · exact Nat.le_refl _
    · obtain ⟨words, rest, effect, -, -, -, -, rfl⟩ := execute_ok (s := s.count) hwf hs hexecute
      rw [hround, state_resume, executed_apply]
      exact Nat.le_refl _

/-! ### Whole runs under a limit -/

section

variable {f : Function} {memory : Memory} {output : Array String} {n : UInt64}

theorem executed_advance_le {limit : Option UInt64} (h : memory.Sound) (rounds : Nat) :
    (Run.advance f limit rounds (Run.start f memory output)).state.executed ≤ rounds := by
  induction rounds with
  | zero =>
    rw [state_advance_zero]
    exact Nat.le_refl _
  | succ rounds ih =>
    rw [Run.advance_succ]
    split
    · rename_i ip s hrun
      have hround : (Run.round f limit ip s).state.executed ≤ s.executed + 1 :=
        executed_round_le (sound_of_advance h hrun)
      rw [executed_of_advance h hrun] at hround
      exact hround
    · omega

/-- Up to the limit, the limit makes no difference. -/
theorem advance_of_le_limit (h : memory.Sound) {rounds : Nat} (hle : rounds ≤ n.toNat) :
    Run.advance f (some n) rounds (Run.start f memory output) =
      Run.advance f none rounds (Run.start f memory output) := by
  induction rounds with
  | zero => cases Run.start f memory output <;> rfl
  | succ rounds ih =>
    rw [Run.advance_succ, Run.advance_succ, ih (by omega)]
    split
    · rename_i ip s hrun
      have hexecuted : s.executed = rounds := executed_of_advance h hrun
      exact round_of_executed_lt (by omega)
    · rfl

/-- One round past the limit, the run has ended. -/
theorem advance_succ_limit (h : memory.Sound) :
    Run.advance f (some n) (n.toNat + 1) (Run.start f memory output) =
      (Run.advance f none n.toNat (Run.start f memory output)).cutOff := by
  rw [Run.advance_succ, advance_of_le_limit h (Nat.le_refl _)]
  cases hrun : Run.advance f none n.toNat (Run.start f memory output) with
  | running ip s =>
    have hexecuted : s.executed = n.toNat := executed_of_advance h hrun
    exact round_of_le_executed (Nat.le_of_eq hexecuted.symm)
  | returned s | trapped trap s => rfl

theorem comesTo_cutOff (h : memory.Sound) :
    Run.ComesTo f (some n) (Run.start f memory output)
      (Run.advance f none n.toNat (Run.start f memory output)).cutOff :=
  ⟨Run.ended_cutOff _, n.toNat + 1, advance_succ_limit h⟩

/-- What the run without limit has come to within the limit, the run with the limit comes to as well. -/
theorem comesTo_of_le_limit (h : memory.Sound) {rounds : Nat} {ended : Run} (hended : ended.Ended)
    (hrun : Run.advance f none rounds (Run.start f memory output) = ended) (hle : rounds ≤ n.toNat) :
    Run.ComesTo f (some n) (Run.start f memory output) ended :=
  ⟨hended, rounds, (advance_of_le_limit h hle).trans hrun⟩

/-- A run of accepted code that has ended within some rounds was refused its frame, or has ended with an instruction, or
has come to the end of the code. -/
theorem Function.VerifiedBy.ends_cases {is : List Instruction} (hverified : f.VerifiedBy is) (h : memory.Sound)
    {rounds : Nat} {ended : Run} (hrun : Run.advance f none rounds (Run.start f memory output) = ended)
    (hended : ended.Ended) :
    Run.start f memory output = ended ∨
    (∃ k, k ≤ rounds ∧ Run.EndsOn f (Run.start f memory output) k ended) ∨
    ∃ k, k < rounds ∧ Run.FallsOff f (Run.start f memory output) k ended := by
  rcases exists_last_round hrun with hstart | ⟨done, ip, s, hlt, hdone, hround⟩
  · exact .inl hstart
  · cases hdecode : Instruction.decodeAt f.code ip with
    | ok i => exact .inr (.inl ⟨done + 1, hlt, hended, done, ip, s, i, rfl, hdone, hdecode, hround⟩)
    | error e =>
      -- every offset before the end at which the run can be has an instruction
      have hconfined := hverified.advance_confined h none done output
      rw [hdone] at hconfined
      have hip : ip = f.code.size := hverified.eq_size_of_decodeAt hconfined hdecode
      subst hip
      exact .inr (.inr ⟨done, hlt, s, hdone, hround⟩)

end

/-! ### The limit of a linked function -/

/-- What a limit of `n` instructions makes of the run of a function. -/
structure Run.LimitedBy (f : Function) (memory : Memory) (output : Array String) (n : UInt64) : Prop where
  stops : ∃ ended, Run.ComesTo f (some n) (Run.start f memory output) ended ∧ ended.state.executed ≤ n.toNat ∧
    ∀ other, Run.ComesTo f (some n) (Run.start f memory output) other → other = ended
  /-- A frame that does not fit is refused whatever the limit. -/
  frame : memory.layout.heapStart < f.stackTop memory.layout →
    ∀ limit, Run.ComesTo f limit (Run.start f memory output) (.trapped ⟨.stackOverflow, 0⟩ (.initial memory output))
  endsOn : ∀ k ended, Run.EndsOn f (Run.start f memory output) k ended → k ≤ n.toNat →
    Run.ComesTo f (some n) (Run.start f memory output) ended
  fallsOff : ∀ k ended, Run.FallsOff f (Run.start f memory output) k ended → k < n.toNat →
    (∃ s, ended = .trapped ⟨.codeOutOfBounds, f.code.size⟩ s) ∧
    Run.ComesTo f (some n) (Run.start f memory output) ended
  /-- In all other cases `n` instructions are completed, and the limit is met at the next offset. -/
  cut : f.stackTop memory.layout ≤ memory.layout.heapStart →
    (∀ k ended, Run.EndsOn f (Run.start f memory output) k ended → n.toNat < k) →
    (∀ k ended, Run.FallsOff f (Run.start f memory output) k ended → n.toNat ≤ k) →
    ∃ ip s, Run.advance f none n.toNat (Run.start f memory output) = .running ip s ∧ s.executed = n.toNat ∧
      Run.ComesTo f (some n) (Run.start f memory output) (.trapped ⟨.instructionLimitExceeded, ip⟩ s)

/-- At the end of accepted code a round finds no instruction. -/
theorem Function.VerifiedBy.round_size {f : Function} {is : List Instruction} (h : f.VerifiedBy is) (s : State) :
    Run.round f none f.code.size s = .trapped ⟨.codeOutOfBounds, f.code.size⟩ s := by
  have hend : f.code.size = offsetAt is is.length := by
    rw [h.size_code, offsetAt_of_length_le (Nat.le_refl _)]
  have hnone : is[is.length]? = none := List.getElem?_eq_none_iff.2 (Nat.le_refl _)
  have hopen : s.reachedLimit none = false := rfl
  rw [hend, round_encodeAll h.wellFormed h.code_eq, hnone, hopen]
  rfl

theorem Function.VerifiedBy.limitedBy {f : Function} {is : List Instruction} (hverified : f.VerifiedBy is)
    {memory : Memory} (h : memory.Sound) (output : Array String) (n : UInt64) :
    Run.LimitedBy f memory output n := by
  have hcut : Run.ComesTo f (some n) (Run.start f memory output) _ := comesTo_cutOff h
  constructor
  case stops =>
    refine ⟨_, hcut, ?_, fun other hother => hcut.unique hother⟩
    rw [Run.state_cutOff]
    exact executed_advance_le h n.toNat
  case frame =>
    intro hframe limit
    refine ⟨trivial, 0, ?_⟩
    rw [Run.start, if_neg (Nat.not_le.2 hframe)]
    rfl
  case endsOn =>
    rintro k ended ⟨hended, done, ip, s, i, rfl, hdone, -, hround⟩ hle
    refine comesTo_of_le_limit h hended ?_ hle
    rw [Run.advance_succ, hdone]
    exact hround
  case fallsOff =>
    rintro k ended ⟨s, hrun, hround⟩ hlt
    rw [hverified.round_size] at hround
    subst hround
    have hnext : Run.advance f none (k + 1) (Run.start f memory output) =
        .trapped ⟨.codeOutOfBounds, f.code.size⟩ s := by
      rw [Run.advance_succ, hrun]
      exact hverified.round_size s
    exact ⟨⟨s, rfl⟩, comesTo_of_le_limit h trivial hnext hlt⟩
  case cut =>
    intro hframe hendsOn hfallsOff
    cases hrun : Run.advance f none n.toNat (Run.start f memory output) with
    | running ip s =>
      rw [hrun] at hcut
      exact ⟨ip, s, rfl, executed_of_advance h hrun, hcut⟩
    | returned s | trapped trap s =>
      -- the run has ended within the limit, which the hypotheses exclude
      exfalso
      rcases hverified.ends_cases h hrun trivial with hstart | ⟨k, hle, hends⟩ | ⟨k, hlt, hfalls⟩
      · rw [Run.start, if_pos hframe] at hstart
        cases hstart
      · have := hendsOn k _ hends
        omega
      · have := hfallsOff k _ hfalls
        omega

/-- Whatever memory holds, a limit ends every run of a linked function and does nothing but cut it off; an execution of
an image with a limit always comes back. -/
theorem Loader.Reached.run_limitedBy {loader : Loader} (h : loader.Reached) {image : Image}
    (hlink : loader.link = .ok image) {name : String} {g : Function} (hg : image.function? name = some g)
    {memory : Memory} (hmemory : memory.SameShape image.memory) (output : Array String) (n : UInt64) :
    Run.LimitedBy g memory output n ∧
    (image.config.instructionLimit = some n →
      ∃ rounds execution, (image.withMemory memory).execute? rounds name output = some execution) := by
  have hconsistent := h.consistent
  have hsound : memory.Sound := hmemory.sound (hconsistent.sound_of_link hlink)
  have hname := hconsistent.function?_of_link hlink name
  rw [hg] at hname
  obtain ⟨f, hf, rfl⟩ := Option.map_eq_some_iff.1 hname.symm
  obtain ⟨⟨is, hverified⟩, -, -⟩ := hconsistent.verifiedBy_linked (List.mem_of_find?_eq_some hf)
  refine ⟨hverified.limitedBy hsound output n, fun hlimit => ⟨n.toNat + 1, ?_⟩⟩
  have hfunction : (image.withMemory memory).function? name = some (loader.linked f) := hg
  have hconfig : (image.withMemory memory).config.instructionLimit = some n := hlimit
  have hmem : (image.withMemory memory).memory = memory := rfl
  unfold Image.execute?
  rw [hfunction, hconfig, hmem]
  dsimp only
  rw [advance_succ_limit hsound]
  exact (Run.ended_cutOff _).exists_execution _

theorem Loader.Reached.run_limitedBy_greeting :
    ∃ image g, greetingLoader.link = .ok image ∧ image.function? "greeting" = some g ∧
      Run.LimitedBy g image.memory #[] 100 ∧
      ∃ ended, Run.ComesTo g (some 100) (Run.start g image.memory #[]) ended ∧ ended.state.executed ≤ 100 := by
  obtain ⟨image, hlink⟩ := exists_link_greetingLoader
  have hg : image.function? "greeting" = some (greetingLoader.linked greeting) :=
    reached_greetingLoader.consistent.function?_of_mem hlink greeting_mem_greetingLoader
  have hlimited := (reached_greetingLoader.run_limitedBy hlink hg (Memory.SameShape.refl _) #[] 100).1
  obtain ⟨ended, hcomes, hexecuted, -⟩ := hlimited.stops
  exact ⟨image, _, hlink, hg, hlimited, ended, hcomes, hexecuted⟩

end StackMachine
