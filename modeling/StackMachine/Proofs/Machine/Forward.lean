import StackMachine.Proofs.Machine.Counters
import StackMachine.Proofs.Machine.Limit

/-!
# Code without loops

If every branch leads behind its own offset, then so does every round that goes on (`lt_of_round`): an instruction that does
not branch has a positive length.  The offsets at which a run begins instructions therefore increase
(`sorted_trace`).  In accepted code they are offsets of instructions, so no instruction is begun twice and there are at most
as many rounds as the code has bytes.

A run ends in one more way than by an instruction or at the end of the code.  A frame that does not fit the stack region is
refused before the first instruction, whatever the code is.
-/

namespace StackMachine

/-- Every branch leads to an offset behind its own. -/
def Function.ForwardOnly (f : Function) : Prop :=
  ∀ offset i, (offset, i) ∈ (decode f.code).instructions →
    ∀ target, i.operand = .codeAddress target → (offset : Int) < target.toInt

instance (f : Function) : Decidable f.ForwardOnly :=
  decidable_of_iff
    ((decode f.code).instructions.all fun (offset, i) =>
      match i.operand with
      | .codeAddress target => (offset : Int) < target.toInt
      | _ => true) <| by
    simp only [List.all_eq_true, Prod.forall, Function.ForwardOnly]
    refine forall₂_congr fun offset i => imp_congr_right fun _ => ?_
    cases i.operand <;> simp

/-- The ways in which the run of accepted code can end, once it has begun. -/
inductive Run.EndsIn (f : Function) (run : Run) : Run → Prop
  | returns {done ip : Nat} {s t : State} {i : Instruction} (hrun : Run.advance f none done run = .running ip s)
      (hdecode : Instruction.decodeAt f.code ip = .ok i) (hret : i.opcode = .ret)
      (hround : Run.round f none ip s = .returned t) : EndsIn f run (.returned t)
  | faults {done ip : Nat} {s t : State} {i : Instruction} {fault : Fault}
      (hrun : Run.advance f none done run = .running ip s) (hdecode : Instruction.decodeAt f.code ip = .ok i)
      (hexecute : i.execute f s.count = .error fault t) : EndsIn f run (.trapped ⟨fault, ip⟩ t)
  | fallsOff {done : Nat} {s : State} (hrun : Run.advance f none done run = .running f.code.size s) :
      EndsIn f run (.trapped ⟨.codeOutOfBounds, f.code.size⟩ s)

section

variable {f : Function} {is : List Instruction} {limit : Option UInt64} {memory : Memory} {output : Array String}

/-! ### One round -/

theorem Function.VerifiedBy.lt_of_round (h : f.VerifiedBy is) (hforward : f.ForwardOnly) {ip next : Nat} {s t : State}
    (hip : IsFetchOffset f.code ip) (hs : s.memory.Sound) (hround : Run.round f limit ip s = .running next t) :
    ip < next := by
  rcases round_effect f limit ip hs with ⟨trap, u, htrap⟩ | ⟨i, words, rest, effect, hdecode, -, harity, heffect, hnext⟩
  · rw [htrap] at hround
    cases hround
  · rw [hnext] at hround
    have hwf := Instruction.wellFormed_of_decodeAt hdecode
    cases hcontrol : effect.control with
    | next =>
      rw [hcontrol] at hround
      cases hround
      have hpos := i.length_pos
      omega
    | jump target =>
      rw [hcontrol] at hround
      cases hround
      obtain ⟨word, hoperand, hword⟩ := (effect_ok hwf harity heffect).2.2 _ hcontrol
      have hlt := hforward ip i (h.mem_instructions_of_decodeAt hip hdecode) word hoperand
      omega
    | halt =>
      rw [hcontrol] at hround
      cases hround

/-! ### Whole runs -/

theorem Run.dispatch?_running {ip offset : Nat} {s : State} {i : Instruction}
    (h : (Run.running ip s).dispatch? f limit = some (offset, i)) :
    offset = ip ∧ Instruction.decodeAt f.code ip = .ok i := by
  simp only [Run.dispatch?] at h
  split at h
  · cases h
  · cases hdecode : Instruction.decodeAt f.code ip with
    | ok j =>
      rw [hdecode] at h
      cases h
      exact ⟨rfl, rfl⟩
    | error e =>
      rw [hdecode] at h
      cases h

theorem Function.VerifiedBy.isFetchOffset_of_advance (h : f.VerifiedBy is) (hmemory : memory.Sound) {rounds ip : Nat}
    {s : State} (hrun : Run.advance f limit rounds (Run.start f memory output) = .running ip s) :
    IsFetchOffset f.code ip := by
  have hconfined := h.advance_confined hmemory limit rounds output
  rwa [hrun] at hconfined

/-- A run is behind every instruction that it has begun. -/
theorem Function.VerifiedBy.lt_of_mem_trace (h : f.VerifiedBy is) (hforward : f.ForwardOnly) (hmemory : memory.Sound)
    {rounds ip : Nat} {s : State} (hrun : Run.advance f limit rounds (Run.start f memory output) = .running ip s) :
    rounds ≤ ip ∧ ∀ entry ∈ Run.trace f limit rounds (Run.start f memory output), entry.1 < ip := by
  induction rounds generalizing ip s with
  | zero => exact ⟨Nat.zero_le _, by simp [Run.trace, Run.gather]⟩
  | succ rounds ih =>
    rw [Run.advance_succ] at hrun
    cases hprev : Run.advance f limit rounds (Run.start f memory output) with
    | running before t =>
      rw [hprev] at hrun
      have hbefore := h.isFetchOffset_of_advance hmemory hprev
      have hlt := h.lt_of_round hforward hbefore (sound_of_advance hmemory hprev) hrun
      obtain ⟨hrounds, htrace⟩ := ih hprev
      refine ⟨by omega, fun entry hentry => ?_⟩
      rw [Run.trace, Run.gather_succ, hprev] at hentry
      rcases List.mem_append.1 hentry with hearlier | hlast
      · exact Nat.lt_trans (htrace entry hearlier) hlt
      · obtain ⟨heq, -⟩ := Run.dispatch?_running (Option.mem_toList.1 hlast)
        omega
    | returned t | trapped trap t =>
      rw [hprev] at hrun
      cases hrun

theorem Function.VerifiedBy.sorted_trace (h : f.VerifiedBy is) (hforward : f.ForwardOnly) (hmemory : memory.Sound)
    (rounds : Nat) : ((Run.trace f limit rounds (Run.start f memory output)).map Prod.fst).Pairwise (· < ·) := by
  induction rounds with
  | zero => simp [Run.trace, Run.gather]
  | succ rounds ih =>
    rw [Run.trace, Run.gather_succ, List.map_append, List.pairwise_append]
    refine ⟨ih, ?_, ?_⟩
    · cases (Run.advance f limit rounds (Run.start f memory output)).dispatch? f limit <;> simp
    · intro earlier hearlier last hlast
      obtain ⟨entry, hentry, rfl⟩ := List.mem_map.1 hearlier
      obtain ⟨⟨offset, i⟩, hdispatch, rfl⟩ := List.mem_map.1 hlast
      cases hrun : Run.advance f limit rounds (Run.start f memory output) with
      | running ip s =>
        rw [hrun] at hdispatch
        obtain ⟨rfl, -⟩ := Run.dispatch?_running (Option.mem_toList.1 hdispatch)
        exact (h.lt_of_mem_trace hforward hmemory hrun).2 entry hentry
      | returned s | trapped trap s =>
        rw [hrun] at hdispatch
        cases hdispatch

/-- What a run begins are instructions of the code. -/
theorem Function.VerifiedBy.trace_subset (h : f.VerifiedBy is) (hmemory : memory.Sound) (rounds : Nat) :
    Run.trace f limit rounds (Run.start f memory output) ⊆ (decode f.code).instructions := by
  rintro ⟨offset, i⟩ hentry
  obtain ⟨done, -, hdispatch⟩ := List.mem_filterMap.1 hentry
  cases hrun : Run.advance f limit done (Run.start f memory output) with
  | running ip s =>
    rw [hrun] at hdispatch
    obtain ⟨rfl, hdecode⟩ := Run.dispatch?_running hdispatch
    exact h.mem_instructions_of_decodeAt (h.isFetchOffset_of_advance hmemory hrun) hdecode
  | returned s | trapped trap s =>
    rw [hrun] at hdispatch
    cases hdispatch

theorem Function.VerifiedBy.nodup_trace (h : f.VerifiedBy is) (hforward : f.ForwardOnly) (hmemory : memory.Sound)
    (rounds : Nat) : ((Run.trace f limit rounds (Run.start f memory output)).map Prod.fst).Nodup :=
  (h.sorted_trace hforward hmemory rounds).imp Nat.ne_of_lt

theorem Function.VerifiedBy.executed_le (h : f.VerifiedBy is) (hforward : f.ForwardOnly) (hmemory : memory.Sound)
    (rounds : Nat) :
    (Run.advance f limit rounds (Run.start f memory output)).state.executed ≤ (decode f.code).instructions.length := by
  have hnodup : (Run.trace f limit rounds (Run.start f memory output)).Nodup :=
    List.Pairwise.of_map Prod.fst (fun _ _ hne heq => hne (congrArg Prod.fst heq))
      (h.nodup_trace hforward hmemory rounds)
  rw [executed_advance f limit hmemory]
  exact hnodup.length_le_of_subset (h.trace_subset hmemory rounds)

/-- After more rounds than the code has bytes, the run has ended. -/
theorem Function.VerifiedBy.ended_of_size_lt (h : f.VerifiedBy is) (hforward : f.ForwardOnly) (hmemory : memory.Sound)
    {rounds : Nat} (hrounds : f.code.size < rounds) :
    (Run.advance f limit rounds (Run.start f memory output)).Ended := by
  cases hrun : Run.advance f limit rounds (Run.start f memory output) with
  | running ip s =>
    have hle := (h.lt_of_mem_trace hforward hmemory hrun).1
    have hsize := h.le_size_of_isFetchOffset (h.isFetchOffset_of_advance hmemory hrun)
    omega
  | returned s | trapped trap s => trivial

theorem Run.EndsOn.endsIn {run ended : Run} {k : Nat} (h : Run.EndsOn f run k ended)
    (hsound : ∀ done ip s, Run.advance f none done run = .running ip s → s.memory.Sound) : Run.EndsIn f run ended := by
  obtain ⟨hended, done, ip, s, i, -, hrun, hdecode, rfl⟩ := h
  have hs := hsound done ip s hrun
  have hwf := Instruction.wellFormed_of_decodeAt hdecode
  have hopen : s.reachedLimit none = false := rfl
  have hround := round_eq f none ip s
  rw [hdecode, hopen, if_neg Bool.false_ne_true] at hround
  dsimp only at hround
  cases hexecute : i.execute f s.count with
  | error fault t =>
    rw [hexecute] at hround
    rw [hround]
    exact .faults hrun hdecode hexecute
  | ok control t =>
    rw [hexecute] at hround
    dsimp only at hround
    cases control with
    | next | jump target =>
      rw [hround] at hended
      cases hended
    | halt =>
      obtain ⟨words, rest, effect, -, harity, heffect, hcontrol, -⟩ := execute_ok (s := s.count) hwf hs hexecute
      have hret : i.opcode = .ret := by
        cases arises_of_effect hwf harity heffect with
        | halts => rfl
        | _ => cases hcontrol
      rw [hround]
      exact .returns hrun hdecode hret hround

/-- Accepted code without loops is passed through once: the run ends, by an instruction or at the end of the code if its
frame fits, and before it begins if not. -/
theorem Function.VerifiedBy.forward_ends (h : f.VerifiedBy is) (hforward : f.ForwardOnly) (hmemory : memory.Sound) :
    ∃ ended, Run.ComesTo f none (Run.start f memory output) ended ∧
      ended.state.executed ≤ (decode f.code).instructions.length ∧
      (f.stackTop memory.layout ≤ memory.layout.heapStart → Run.EndsIn f (Run.start f memory output) ended) ∧
      (memory.layout.heapStart < f.stackTop memory.layout →
        ended = .trapped ⟨.stackOverflow, 0⟩ (.initial memory output)) := by
  have hended : (Run.advance f none (f.code.size + 1) (Run.start f memory output)).Ended :=
    h.ended_of_size_lt hforward hmemory (Nat.lt_succ_self _)
  refine ⟨_, ⟨hended, f.code.size + 1, rfl⟩, h.executed_le hforward hmemory _, fun hframe => ?_, fun hframe => ?_⟩
  · rcases h.ends_cases hmemory rfl hended with hstart | ⟨k, -, hends⟩ | ⟨k, -, s, hrun, hround⟩
    · rw [← hstart, Run.start, if_pos hframe] at hended
      cases hended
    · exact hends.endsIn fun done ip s hrun => sound_of_advance hmemory hrun
    · rw [← hround, h.round_size]
      exact .fallsOff hrun
  · rw [Run.start, if_neg (Nat.not_le.2 hframe)]
    rfl

end

/-! ### Linked functions -/

/-- Whatever memory holds, the run of a linked function without loops begins no instruction twice, and ends. -/
theorem Loader.Reached.forward_run_ends {loader : Loader} (h : loader.Reached) {image : Image}
    (hlink : loader.link = .ok image) {name : String} {g : Function} (hg : image.function? name = some g)
    (hforward : g.ForwardOnly) {memory : Memory} (hmemory : memory.SameShape image.memory) (output : Array String) :
    (∀ rounds, ((Run.trace g none rounds (Run.start g memory output)).map Prod.fst).Nodup) ∧
    ∃ ended, Run.ComesTo g none (Run.start g memory output) ended ∧
      ended.state.executed ≤ (decode g.code).instructions.length ∧
      (g.stackTop memory.layout ≤ memory.layout.heapStart → Run.EndsIn g (Run.start g memory output) ended) ∧
      (memory.layout.heapStart < g.stackTop memory.layout →
        ended = .trapped ⟨.stackOverflow, 0⟩ (.initial memory output)) := by
  have hconsistent := h.consistent
  have hsound : memory.Sound := hmemory.sound (hconsistent.sound_of_link hlink)
  have hname := hconsistent.function?_of_link hlink name
  rw [hg] at hname
  obtain ⟨f, hf, rfl⟩ := Option.map_eq_some_iff.1 hname.symm
  obtain ⟨⟨is, hverified⟩, -, -⟩ := hconsistent.verifiedBy_linked (List.mem_of_find?_eq_some hf)
  exact ⟨hverified.nodup_trace hforward hsound, hverified.forward_ends hforward hsound⟩

/-- Skips the output of a number, and returns. -/
def skipping : Function :=
  { name := "skipping", localOffsets := [], localSize := 0, staticData := []
    code := encodeAll [⟨.loadImmediate, .immediate 0⟩, ⟨.branchIfFalse, .codeAddress 16⟩, ⟨.loadImmediate, .immediate 7⟩,
      .plain .output, .plain .ret] }

theorem Loader.Reached.forward_run_ends_skipping :
    ∃ image g ended, (Loader.holding skipping).link = .ok image ∧ image.function? "skipping" = some g ∧
      g.ForwardOnly ∧ ended.state.executed ≤ 5 ∧ Run.ComesTo g none (Run.start g image.memory #[]) ended ∧
      Run.EndsIn g (Run.start g image.memory #[]) ended := by
  have hload : skipping.loadError? = none := by decide +kernel
  obtain ⟨image, hlink, -, hg, hmemory⟩ := Loader.exists_link_holding hload rfl
  have hforward : ({ skipping with patched := true } : Function).ForwardOnly := by decide +kernel
  obtain ⟨-, ended, hcomes, hexecuted, hends, -⟩ := (Loader.reached_holding skipping).forward_run_ends hlink hg hforward
    (Memory.SameShape.refl image.memory) #[]
  have hlength : (decode skipping.code).instructions.length = 5 := by decide +kernel
  refine ⟨image, _, ended, hlink, hg, hforward, hlength ▸ hexecuted, hcomes, hends ?_⟩
  rw [hmemory]
  decide +kernel

/-- Returns at once, with a frame larger than the stack region. -/
def oversized : Function :=
  { name := "oversized", localOffsets := [0], localSize := 4096, staticData := [], code := encodeAll [.plain .ret] }

theorem ends_otherwise_oversized :
    ∃ image g, (Loader.holding oversized).Reached ∧ (Loader.holding oversized).link = .ok image ∧
      image.function? "oversized" = some g ∧ g.verify = .ok () ∧ g.ForwardOnly ∧
      Run.ComesTo g none (Run.start g image.memory #[]) (.trapped ⟨.stackOverflow, 0⟩ (.initial image.memory #[])) ∧
      ¬ ∃ ended, Run.ComesTo g none (Run.start g image.memory #[]) ended ∧
        Run.EndsIn g (Run.start g image.memory #[]) ended := by
  have hload : oversized.loadError? = none := by decide +kernel
  obtain ⟨image, hlink, -, hg, hmemory⟩ := Loader.exists_link_holding hload rfl
  have hstart : Run.start { oversized with patched := true } image.memory #[] =
      .trapped ⟨.stackOverflow, 0⟩ (.initial image.memory #[]) := by
    rw [hmemory]
    rfl
  have hforward : ({ oversized with patched := true } : Function).ForwardOnly := by decide +kernel
  refine ⟨image, _, Loader.reached_holding oversized, hlink, hg, by decide +kernel, hforward, ?_, ?_⟩
  · rw [hstart]
    exact ⟨trivial, 0, rfl⟩
  · rintro ⟨ended, -, hends⟩
    rw [hstart] at hends
    -- a run that has trapped at its start stands at no offset after any number of rounds
    have hstill : ∀ done, Run.advance { oversized with patched := true } none done
        (.trapped ⟨.stackOverflow, 0⟩ (.initial image.memory #[])) =
          .trapped ⟨.stackOverflow, 0⟩ (.initial image.memory #[]) := fun done => by cases done <;> rfl
    cases hends with
    | returns hrun | faults hrun | fallsOff hrun =>
      rw [hstill] at hrun
      cases hrun

end StackMachine
