import StackMachine.Proofs.Assembly.Assembled
import StackMachine.Proofs.Function.Exactness

/-!
# When assembling succeeds

Assembling succeeds exactly if the code and the frame are not too large and every handle and every local that is named
exists (`assemble_ok_iff`, with the conditions in `Builder.Assemblable`).

The function is verified last.  By then the frame has no flaw (`frameFlaw?_of_layOutFrame`), branches lead to instructions
or to the end (`branches_lead`) and recorded loads are loads (`loads_recorded`).  What is left to be at fault is a local
that was not declared, and the first one is reported (`namesFirstUndeclared_of_assemble`).
-/

namespace StackMachine

/-- What a builder has to meet so that a function can be assembled. -/
structure Builder.Assemblable (builder : Builder) : Prop where
  codeLength_le : Size.total (builder.emissions.toList.map Emission.length) ≤ maxWord
  /-- Every branch leads to a label that exists and is set. -/
  labels : ∀ (k : Nat) (conditional : Bool) (label : Label), builder.emissions[k]? = some (.branch conditional label) →
    ∃ position : Nat, builder.labels[label.index.toNat]? = some (some position)
  /-- Every static load names a block that exists. -/
  blocks : ∀ (k : Nat) (block : BlockHandle), builder.emissions[k]? = some (.staticAddress block) →
    block.index.toNat < builder.blocks.size
  localCount_le : builder.localSizes.length ≤ 256
  frame_le : ∀ k, Size.total (builder.localSizes.take k) ≤ maxWord
  /-- Every local that is named is declared. -/
  locals : ∀ (k : Nat) (index : UInt8), builder.emissions[k]? = some (.localAddress index) →
    index.toNat < builder.localSizes.length

/-- The error names the offset of a local that is not declared, and no other such local has a lower one. -/
def Builder.NamesFirstUndeclared (builder : Builder) (e : CodeError) : Prop :=
  ∃ (k : Nat) (index : UInt8), builder.emissions[k]? = some (.localAddress index) ∧
    builder.localSizes.length ≤ index.toNat ∧
    e = .localOutOfRange (builder.offsetOf k) index builder.localSizes.length ∧
    ∀ (j : Nat) (other : UInt8), builder.emissions[j]? = some (.localAddress other) →
      builder.localSizes.length ≤ other.toNat → builder.offsetOf k ≤ builder.offsetOf j

/-- The function that is verified at the end of assembling. -/
def Builder.draft (builder : Builder) (frame : List UInt32 × UInt32) : Function :=
  { name := builder.name, localOffsets := frame.1, localSize := frame.2, code := builder.code,
    staticData := builder.staticData }

/-! ### The frame -/

theorem total_take_mono {sizes : List Nat} {j k : Nat} (h : j ≤ k) :
    Size.total (sizes.take j) ≤ Size.total (sizes.take k) := by
  have hle := total_take_le (sizes.take k) j
  rwa [List.take_take, Nat.min_eq_left h] at hle

private theorem exists_layOutLocals? (start : Nat) {sizes : List Nat}
    (h : ∀ k, start + Size.total (sizes.take k) ≤ maxWord) : ∃ frame, layOutLocals? start sizes = some frame := by
  induction sizes generalizing start with
  | nil => exact ⟨_, rfl⟩
  | cons size sizes ih =>
    have hfirst : start + size ≤ maxWord := by simpa using h 1
    have hrest : ∀ k, start + size + Size.total (sizes.take k) ≤ maxWord := by
      intro k
      have hk := h (k + 1)
      rw [List.take_succ_cons, Size.total_cons] at hk
      omega
    obtain ⟨frame, hframe⟩ := ih (start + size) hrest
    exact ⟨_, by rw [layOutLocals?, if_pos hfirst, hframe]; rfl⟩

/-- The frame is laid out exactly if it has not too many locals and all their sums are words. -/
theorem layOutFrame_ok_iff {sizes : List Nat} :
    (∃ frame, layOutFrame sizes = .ok frame) ↔
      sizes.length ≤ maxLocals ∧ ∀ k, Size.total (sizes.take k) ≤ maxWord := by
  unfold layOutFrame
  constructor
  · rintro ⟨frame, h⟩
    split at h
    · cases h
    · rename_i hcount
      split at h
      · rename_i laid hlaid
        obtain ⟨-, hle, -, -⟩ := layOutLocals?_exact hlaid
        exact ⟨Nat.le_of_not_lt hcount, fun k => Nat.le_trans (total_take_le sizes k) hle⟩
      · cases h
  · rintro ⟨hcount, hsums⟩
    rw [if_neg (Nat.not_lt.2 hcount)]
    obtain ⟨frame, hframe⟩ := exists_layOutLocals? 0 fun k => by simpa using hsums k
    exact ⟨frame, by rw [hframe]⟩

theorem frameFlaw?_of_layOutFrame {sizes : List Nat} {frame : List UInt32 × UInt32}
    (h : layOutFrame sizes = .ok frame) : frame.1.length = sizes.length ∧ frameFlaw? frame.1 frame.2 = none := by
  obtain ⟨hcount, -⟩ := layOutFrame_ok_iff.1 ⟨frame, h⟩
  obtain ⟨offsets, size⟩ := frame
  obtain ⟨hlength, -, hsize, hget⟩ := layOutLocals?_exact (layOutLocals?_of_layOutFrame h)
  have hsorted : offsets.Pairwise (· ≤ ·) := by
    rw [List.pairwise_iff_getElem]
    intro j k hj hk hjk
    rw [UInt32.le_iff_toNat_le, hget j _ (List.getElem?_eq_getElem hj), hget k _ (List.getElem?_eq_getElem hk)]
    exact total_take_mono (Nat.le_of_lt hjk)
  refine ⟨hlength, frameFlaw?_eq_none_iff.2 ⟨hlength ▸ hcount, ?_, hsorted, ?_, ?_⟩⟩
  · intro first hfirst
    rw [List.head?_eq_getElem?] at hfirst
    have hzero := hget 0 first hfirst
    rw [List.take_zero, Size.total_nil] at hzero
    exact UInt32.toNat_inj.1 hzero
  · intro last hlast
    rw [List.getLast?_eq_getElem?] at hlast
    have hlastle := total_take_le sizes (offsets.length - 1)
    rw [UInt32.le_iff_toNat_le, hget _ _ hlast, hsize]
    exact hlastle
  · rintro rfl
    have hsizes : sizes = [] := List.length_eq_zero_iff.1 hlength.symm
    rw [hsizes] at hsize
    exact UInt32.toNat_inj.1 hsize

/-! ### What verification finds -/

theorem Builder.branches_lead {builder : Builder} (hlength : builder.codeLength ≤ maxWord)
    (hlabels : ∀ (k : Nat) (conditional : Bool) (label : Label),
      builder.emissions[k]? = some (.branch conditional label) →
      ∃ position : Nat, builder.labels[label.index.toNat]? = some (some position)) :
    ∀ i ∈ builder.instructions, ∀ target, i.operand = .codeAddress target →
      ∃ j, j ≤ builder.instructions.length ∧ target.toInt = offsetAt builder.instructions j := by
  intro i hi target htarget
  obtain ⟨k, hk⟩ := List.mem_iff_getElem?.1 hi
  rw [builder.getElem?_instructions] at hk
  obtain ⟨emission, hemission, rfl⟩ := Option.map_eq_some_iff.1 hk
  cases emission with
  | plain | immediate | localAddress | staticAddress => cases htarget
  | branch conditional label =>
    cases htarget
    obtain ⟨position, hposition⟩ := hlabels k conditional label hemission
    have hword := toInt_ofNat_of_le (Nat.le_trans (builder.offsetOf_le position) hlength)
    have htotal : builder.instructions.length = builder.emissions.size := by simp [Builder.instructions]
    simp only [builder.offsetAt_instructions, Builder.labelOffset, hposition, hword]
    -- behind the last instruction all positions have the offset of the end
    by_cases hle : position ≤ builder.emissions.size
    · exact ⟨position, by omega, rfl⟩
    · refine ⟨builder.emissions.size, by omega, ?_⟩
      rw [Builder.offsetOf_of_size_le (by omega), Builder.offsetOf_of_size_le (Nat.le_refl _)]

theorem Builder.loads_recorded {builder : Builder} (hlength : builder.codeLength ≤ maxWord) :
    ∀ block ∈ builder.staticData, ∀ offset ∈ block.loadOffsets, HasLoadAt builder.instructions offset.toNat := by
  intro block hblock offset hoffset
  obtain ⟨number, hnumber⟩ := List.mem_iff_getElem?.1 hblock
  rw [builder.getElem?_staticData] at hnumber
  obtain ⟨data, -, rfl⟩ := Option.map_eq_some_iff.1 hnumber
  obtain ⟨k, handle, hk, -, rfl⟩ := Builder.mem_loadOffsets.1 hoffset
  refine ⟨k, builder.instruction builder.offsetOf (.staticAddress handle), ?_, rfl, ?_⟩
  · rw [builder.getElem?_instructions, hk]
    rfl
  · rw [Builder.toNat_ofNat_offsetOf hlength, builder.offsetAt_instructions]

private theorem localIndex_iff {builder : Builder} {k : Nat} {index : UInt8} :
    (∃ i, builder.instructions[k]? = some i ∧ i.operand = .localIndex index) ↔
      builder.emissions[k]? = some (.localAddress index) := by
  rw [builder.getElem?_instructions]
  constructor
  · rintro ⟨i, hi, hoperand⟩
    obtain ⟨emission, hemission, rfl⟩ := Option.map_eq_some_iff.1 hi
    cases emission with
    | localAddress index' =>
      cases hoperand
      exact hemission
    | plain | immediate | branch | staticAddress => cases hoperand
  · intro h
    rw [h]
    exact ⟨_, rfl, rfl⟩

/-! ### Success and failure -/

/-- Past its own checks, assembling hands out the function that it has verified. -/
theorem Builder.assemble_of_checks {builder : Builder} (hlength : builder.codeLength ≤ maxWord)
    (hhandles : builder.handleFault? = none) {frame : List UInt32 × UInt32}
    (hframe : layOutFrame builder.localSizes = .ok frame) :
    builder.assemble =
      match (builder.draft frame).verify with
      | .error e => .error (.verification e)
      | .ok () => .ok (builder.draft frame) := by
  unfold Builder.assemble
  rw [if_neg (Nat.not_lt.2 hlength), hhandles, hframe]
  rfl

theorem Builder.assemble_ok_iff (builder : Builder) :
    (∃ f, builder.assemble = .ok f) ↔ builder.Assemblable := by
  constructor
  · rintro ⟨f, hassemble⟩
    have h := Builder.assembles_of_assemble hassemble
    obtain ⟨hlength, hle, -, -⟩ := layOutLocals?_exact h.frame
    have hcount := (frameFlaw?_eq_none_iff.1 h.verified.frame).count
    refine ⟨h.codeLength_le, h.labels, h.blocks, ?_, ?_, ?_⟩
    · rwa [hlength] at hcount
    · intro k
      exact Nat.le_trans (total_take_le builder.localSizes k) hle
    · intro k index hk
      obtain ⟨i, hi, hoperand⟩ := localIndex_iff.2 hk
      have hdeclared := h.verified.locals i (List.mem_of_getElem? hi) index hoperand
      rwa [hlength] at hdeclared
  · rintro ⟨hlength, hlabels, hblocks, hcount, hsums, hlocals⟩
    obtain ⟨frame, hframe⟩ := layOutFrame_ok_iff.2 ⟨hcount, hsums⟩
    obtain ⟨hsize, hflaw⟩ := frameFlaw?_of_layOutFrame hframe
    have hverified : (builder.draft frame).VerifiedBy builder.instructions := by
      refine ⟨builder.wellFormed_instructions, builder.code_eq_encodeAll, hflaw,
        Builder.branches_lead hlength hlabels, ?_, Builder.loads_recorded hlength⟩
      intro i hi index hoperand
      obtain ⟨k, hk⟩ := List.mem_iff_getElem?.1 hi
      have hindex := hlocals k index (localIndex_iff.1 ⟨i, hk, hoperand⟩)
      show index.toNat < frame.1.length
      omega
    refine ⟨builder.draft frame, ?_⟩
    rw [Builder.assemble_of_checks hlength (Builder.handleFault?_eq_none_iff.2 ⟨hlabels, hblocks⟩) hframe,
      Function.verify_eq_ok_iff.2 ⟨_, hverified⟩]

/-- What is wrong with a handle is that it is not known, or that its label is not set. -/
theorem Builder.handleFault?_cases {builder : Builder} {e : AssemblyError} (h : builder.handleFault? = some e) :
    (∃ kind index, e = .unknownHandle kind index) ∨ ∃ index, e = .unsetLabel index := by
  rcases Option.or_eq_some_iff.1 h with h | ⟨-, h⟩
  · obtain ⟨emission, -, hfault⟩ := List.exists_of_findSome?_eq_some h
    unfold Builder.branchFault? at hfault
    split at hfault
    · split at hfault
      · exact .inl ⟨_, _, (Option.some.inj hfault).symm⟩
      · exact .inr ⟨_, (Option.some.inj hfault).symm⟩
      · cases hfault
    · cases hfault
  · obtain ⟨emission, -, hfault⟩ := List.exists_of_findSome?_eq_some h
    unfold Builder.blockFault? at hfault
    split at hfault
    · split at hfault
      · cases hfault
      · exact .inl ⟨_, _, (Option.some.inj hfault).symm⟩
    · cases hfault

private theorem handleFault?_ne_verification {builder : Builder} {e : CodeError} :
    builder.handleFault? ≠ some (.verification e) := by
  intro h
  rcases Builder.handleFault?_cases h with ⟨kind, index, h⟩ | ⟨index, h⟩ <;> cases h

/-- With few enough locals, the only limits that a function can exceed are those of the code and of the frame. -/
theorem Builder.cause_of_assemble {builder : Builder} (hcount : builder.localSizes.length ≤ maxLocals)
    {cause : LimitCause} (h : builder.assemble = .error (.limitExceeded cause)) :
    cause = .frameTooLarge ∨ ∃ length, cause = .codeTooLong length := by
  unfold Builder.assemble at h
  split at h
  · cases h
    exact .inr ⟨_, rfl⟩
  · split at h
    · rename_i hfault
      cases h
      rcases Builder.handleFault?_cases hfault with ⟨kind, index, h⟩ | ⟨index, h⟩ <;> cases h
    · split at h
      · rename_i hframe
        cases h
        unfold layOutFrame at hframe
        rw [if_neg (Nat.not_lt.2 hcount)] at hframe
        split at hframe
        · cases hframe
        · cases hframe
          exact .inl rfl
      · dsimp only at h
        split at h <;> cases h

/-- If the function is not accepted, then because of a local that was not declared. -/
theorem Builder.namesFirstUndeclared_of_assemble {builder : Builder} {e : CodeError}
    (h : builder.assemble = .error (.verification e)) : builder.NamesFirstUndeclared e := by
  by_cases hlength : builder.codeLength ≤ maxWord
  · cases hhandles : builder.handleFault? with
    | some fault =>
      unfold Builder.assemble at h
      rw [if_neg (Nat.not_lt.2 hlength), hhandles] at h
      cases h
      exact absurd hhandles handleFault?_ne_verification
    | none =>
      cases hframe : layOutFrame builder.localSizes with
      | error fault =>
        -- a frame that is not laid out exceeds a limit
        unfold Builder.assemble at h
        rw [if_neg (Nat.not_lt.2 hlength), hhandles, hframe] at h
        cases h
        unfold layOutFrame at hframe
        split at hframe
        · cases hframe
        · split at hframe <;> cases hframe
      | ok frame =>
        rw [Builder.assemble_of_checks hlength hhandles hframe] at h
        obtain ⟨hlabels, -⟩ := Builder.handleFault?_eq_none_iff.1 hhandles
        obtain ⟨hsize, hflaw⟩ := frameFlaw?_of_layOutFrame hframe
        have hverify : (builder.draft frame).verify = .error e := by
          split at h
          · rename_i hverify
            cases h
            exact hverify
          · cases h
        obtain ⟨k, i, hi, hoffence, hfirst⟩ :=
          Function.firstOffence_of_verify builder.wellFormed_instructions builder.code_eq_encodeAll hflaw
            (Builder.loads_recorded hlength) hverify
        have hcount : (builder.draft frame).localOffsets.length = builder.localSizes.length := hsize
        cases hoffence with
        | branch htarget hastray =>
          have hleads := Builder.branches_lead hlength hlabels i (List.mem_of_getElem? hi) _ htarget
          exact absurd ((Function.lands_iff builder.wellFormed_instructions builder.code_eq_encodeAll).2 hleads) hastray
        | missing hindex hmissing =>
          rw [hcount] at hmissing
          refine ⟨k, _, localIndex_iff.1 ⟨i, hi, hindex⟩, hmissing, ?_, ?_⟩
          · rw [builder.offsetAt_instructions, hcount]
          · intro j other hj hother
            rw [← builder.offsetAt_instructions, ← builder.offsetAt_instructions]
            obtain ⟨i', hi', hindex'⟩ := localIndex_iff.2 hj
            exact hfirst j i' _ hi' (.missing hindex' (by rw [hcount]; exact hother))
  · unfold Builder.assemble at h
    rw [if_pos (Nat.lt_of_not_le hlength)] at h
    cases h

end StackMachine
