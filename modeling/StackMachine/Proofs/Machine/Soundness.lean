import StackMachine.Proofs.Link.Linking
import StackMachine.Proofs.Machine.Rounds

/-!
# What verification promises of a run

A run of accepted code reads instructions only where the sweep over the code has found them, or comes to the end of the
code; it never meets a byte that is no opcode or a local that does not exist (`Run.Confined`).  One round keeps this
(`round_confined`), since a branch leads to a position of the sequence and any other instruction to the next one.

Linking changes operands of static loads in code that was verified before.  It leaves all offsets as they are
(`verifiedBy_linked`), so that the promise made about the code that was loaded holds of the run of the code that was
linked.
-/

namespace StackMachine

/-- The run is where the sweep over the code has found an instruction, or at the end of the code; it has met no byte
that is no opcode and no local that does not exist, and it has left the code only at its end. -/
def Run.Confined (code : Bytes) : Run → Prop
  | .running ip _ => IsFetchOffset code ip
  | .returned _ => True
  | .trapped trap _ => IsFetchOffset code trap.ip ∧ (∀ byte, trap.fault ≠ .invalidOpcode byte) ∧
      (∀ index, trap.fault ≠ .invalidLocal index) ∧ (trap.fault = .codeOutOfBounds → trap.ip = code.size)

/-! ### One round -/

private theorem confined_of_ofData {code : Bytes} {trap : Trap} (hip : IsFetchOffset code trap.ip)
    (hfault : trap.fault.OfData) (s : State) : (Run.trapped trap s).Confined code := by
  obtain ⟨fault, ip⟩ := trap
  refine ⟨hip, ?_, ?_, ?_⟩
  · rintro byte rfl
    exact hfault
  · rintro index rfl
    exact hfault
  · rintro rfl
    exact hfault.elim

/-- A fault of an instruction of accepted code comes from data. -/
theorem Function.VerifiedBy.ofData_of_execute {f : Function} {is : List Instruction} (h : f.VerifiedBy is)
    {i : Instruction} (hi : i ∈ is) {s t : State} (hs : s.memory.Sound) {fault : Fault}
    (hexecute : i.execute f s = .error fault t) : fault.OfData := by
  have hwf := h.wellFormed i hi
  rcases execute_error hwf hs hexecute with ⟨rfl, -, -⟩ | ⟨words, rest, -, harity, heffect, -⟩
  · trivial
  · rcases effect_error hwf harity heffect with hdata | ⟨index, hoperand, hle, -⟩ | ⟨word, hoperand, hneg, -⟩
    · exact hdata
    · have hlt := h.locals i hi index hoperand
      omega
    · obtain ⟨j, -, htarget⟩ := h.branches i hi word hoperand
      omega

/-- A round of accepted code stays where instructions have been found. -/
theorem Function.VerifiedBy.round_confined {f : Function} {is : List Instruction} (h : f.VerifiedBy is)
    {limit : Option UInt64} {ip : Nat} {s : State} (hip : IsFetchOffset f.code ip) (hs : s.memory.Sound) :
    (Run.round f limit ip s).Confined f.code := by
  obtain ⟨k, hk, rfl⟩ := h.isFetchOffset_iff.1 hip
  rw [round_encodeAll h.wellFormed h.code_eq]
  split
  · exact ⟨hip, nofun, nofun, nofun⟩
  · split
    · rename_i hend
      refine ⟨hip, nofun, nofun, fun _ => ?_⟩
      rw [h.size_code, offsetAt_of_length_le (List.getElem?_eq_none_iff.1 hend)]
    · rename_i i hi
      have hmem := List.mem_of_getElem? hi
      have hlt := (List.getElem?_eq_some_iff.1 hi).1
      split
      · rename_i control t hexecute
        cases control with
        | next => exact h.isFetchOffset_iff.2 ⟨k + 1, hlt, rfl⟩
        | halt => trivial
        | jump target =>
          -- only a branch jumps, and its operand is the offset of a position
          obtain ⟨words, rest, effect, -, harity, heffect, hcontrol, -⟩ :=
            execute_ok (s := s.count) (h.wellFormed i hmem) hs hexecute
          obtain ⟨word, hoperand, hword⟩ := (effect_ok (h.wellFormed i hmem) harity heffect).2.2 target hcontrol.symm
          obtain ⟨j, hj, htarget⟩ := h.branches i hmem word hoperand
          exact h.isFetchOffset_iff.2 ⟨j, hj, by omega⟩
      · rename_i fault t hexecute
        exact confined_of_ofData hip (h.ofData_of_execute (s := s.count) hmem hs hexecute) t

/-! ### A whole run -/

theorem Function.VerifiedBy.isFetchOffset_zero {f : Function} {is : List Instruction} (h : f.VerifiedBy is) :
    IsFetchOffset f.code 0 :=
  h.isFetchOffset_iff.2 ⟨0, Nat.zero_le _, by simp⟩

/-- A run of accepted code stays where instructions have been found. -/
theorem Function.VerifiedBy.advance_confined {f : Function} {is : List Instruction} (h : f.VerifiedBy is)
    {memory : Memory} (hmemory : memory.Sound) (limit : Option UInt64) (rounds : Nat) (output : Array String) :
    (Run.advance f limit rounds (Run.start f memory output)).Confined f.code := by
  -- soundness of memory has to be carried along, since the faults of an exchange depend on it
  have hboth : (Run.advance f limit rounds (Run.start f memory output)).Confined f.code ∧
      (Run.advance f limit rounds (Run.start f memory output)).state.memory.Sound := by
    refine Run.advance_induction (motive := fun run => run.Confined f.code ∧ run.state.memory.Sound) ?_ rounds ?_
    · rintro ip s ⟨hip, hs⟩
      exact ⟨h.round_confined hip hs, (round_sameShape hs).sound hs⟩
    · refine ⟨?_, by rw [state_start]; exact hmemory⟩
      unfold Run.start
      split
      · exact h.isFetchOffset_zero
      · have hfault : Fault.stackOverflow.OfData := trivial
        exact confined_of_ofData h.isFetchOffset_zero hfault _
  exact hboth.1

/-! ### Linked code -/

/-- A function that is linked is acceptable, and instructions are found in it where they were found before. -/
theorem Loader.Consistent.verifiedBy_linked {loader : Loader} (h : loader.Consistent) {f : Function}
    (hf : f ∈ loader.registry.functions) :
    (∃ is, (loader.linked f).VerifiedBy is) ∧ (loader.linked f).code.size = f.code.size ∧
      ∀ offset, IsFetchOffset (loader.linked f).code offset ↔ IsFetchOffset f.code offset := by
  obtain ⟨-, is, hverified⟩ := Function.verifiedBy_of_loadError? (h.accepted f hf)
  have hlinked := hverified.withAddresses ((loader.addressesOf f).map Int32.ofNat)
  have hops := map_opcode_foldl_readdress (f.relocations ((loader.addressesOf f).map Int32.ofNat)) is
  refine ⟨⟨_, hlinked⟩, hverified.size_withAddresses _, fun offset => ?_⟩
  rw [hverified.isFetchOffset_iff]
  refine Iff.trans hlinked.isFetchOffset_iff ?_
  simp only [offsetAt_foldl_readdress, length_congr hops]

theorem Run.Confined.congr {code code' : Bytes} (hsize : code.size = code'.size)
    (hfetch : ∀ offset, IsFetchOffset code offset ↔ IsFetchOffset code' offset) {run : Run}
    (h : run.Confined code) : run.Confined code' := by
  cases run with
  | running ip s => exact (hfetch ip).1 h
  | returned s => trivial
  | trapped trap s =>
    obtain ⟨hip, hopcode, hlocal, hend⟩ := h
    exact ⟨(hfetch _).1 hip, hopcode, hlocal, fun hfault => (hend hfault).trans hsize⟩

/-- Whatever memory holds and however long it goes on, the run of a linked function stays where instructions were found
in the function that was loaded. -/
theorem Loader.Reached.run_confined {loader : Loader} (h : loader.Reached) {f : Function}
    (hf : f ∈ loader.registry.functions) {image : Image} (hlink : loader.link = .ok image) :
    ∃ g, image.function? f.name = some g ∧
      ∀ memory : Memory, memory.SameShape image.memory →
        ∀ (limit : Option UInt64) (rounds : Nat) (output : Array String),
          (Run.advance g limit rounds (Run.start g memory output)).Confined f.code := by
  have hconsistent := h.consistent
  obtain ⟨⟨is, hverified⟩, hsize, hfetch⟩ := hconsistent.verifiedBy_linked hf
  refine ⟨loader.linked f, hconsistent.function?_of_mem hlink hf, ?_⟩
  intro memory hmemory limit rounds output
  have hsound := hmemory.sound (hconsistent.sound_of_link hlink)
  exact (hverified.advance_confined hsound limit rounds output).congr hsize hfetch

theorem Loader.Reached.run_confined_greeting :
    ∃ image g, greetingLoader.link = .ok image ∧ image.function? "greeting" = some g ∧
      ∀ memory : Memory, memory.SameShape image.memory →
        ∀ (limit : Option UInt64) (rounds : Nat) (output : Array String),
          (Run.advance g limit rounds (Run.start g memory output)).Confined greeting.code := by
  obtain ⟨image, hlink⟩ := exists_link_greetingLoader
  obtain ⟨g, hg, hrun⟩ := reached_greetingLoader.run_confined greeting_mem_greetingLoader hlink
  exact ⟨image, g, hlink, hg, hrun⟩

end StackMachine
