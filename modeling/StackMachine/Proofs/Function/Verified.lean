import StackMachine.Function.Verification
import StackMachine.Proofs.Code.Sequence

/-!
# What verification means

A function is accepted exactly if its frame has no flaw and its code is the code of a well-formed sequence of
instructions, in which every branch leads to the offset of a position of the sequence (the position behind the last
instruction included), every local exists, and every recorded load is the offset of a load of a static address:
`verify_eq_ok_iff`.
-/

namespace StackMachine

/-- A load of a static address stands at the offset. -/
def HasLoadAt (is : List Instruction) (offset : Nat) : Prop :=
  ∃ k i, is[k]? = some i ∧ i.opcode = .loadStaticAddress ∧ offset = offsetAt is k

/-- The sequence of instructions that makes a function acceptable. -/
structure Function.VerifiedBy (f : Function) (is : List Instruction) : Prop where
  wellFormed : WellFormedSequence is
  code_eq : f.code = encodeAll is
  frame : frameFlaw? f.localOffsets f.localSize = none
  branches : ∀ i ∈ is, ∀ target, i.operand = .codeAddress target →
    ∃ j, j ≤ is.length ∧ target.toInt = offsetAt is j
  locals : ∀ i ∈ is, ∀ index, i.operand = .localIndex index → index.toNat < f.localOffsets.length
  loads : ∀ block ∈ f.staticData, ∀ offset ∈ block.loadOffsets, HasLoadAt is offset.toNat

theorem Function.VerifiedBy.size_code {f : Function} {is : List Instruction} (h : f.VerifiedBy is) :
    f.code.size = codeLength is := by
  rw [h.code_eq, size_encodeAll h.wellFormed]

/-- The offsets at which a run may fetch: those of the instructions of the code, and the end of the code. -/
def IsFetchOffset (code : Bytes) (offset : Nat) : Prop :=
  offset ∈ (decode code).instructions.map Prod.fst ∨ offset = code.size

theorem Function.VerifiedBy.isFetchOffset_iff {f : Function} {is : List Instruction} (h : f.VerifiedBy is)
    {offset : Nat} : IsFetchOffset f.code offset ↔ ∃ k, k ≤ is.length ∧ offset = offsetAt is k := by
  unfold IsFetchOffset
  rw [h.size_code, h.code_eq, decode_encodeAll h.wellFormed, mem_map_fst_withOffsets]
  constructor
  · rintro (⟨k, hk, rfl⟩ | rfl)
    · exact ⟨k, by omega, rfl⟩
    · exact ⟨is.length, Nat.le_refl _, (offsetAt_of_length_le (Nat.le_refl _)).symm⟩
  · rintro ⟨k, hk, rfl⟩
    rcases Nat.lt_or_eq_of_le hk with hlt | rfl
    · exact .inl ⟨k, hlt, rfl⟩
    · exact .inr (offsetAt_of_length_le (Nat.le_refl _))

/-- What is read where the sweep has found an instruction is that instruction. -/
theorem Function.VerifiedBy.mem_instructions_of_decodeAt {f : Function} {is : List Instruction} (h : f.VerifiedBy is)
    {offset : Nat} (hoffset : IsFetchOffset f.code offset) {i : Instruction}
    (hi : Instruction.decodeAt f.code offset = .ok i) : (offset, i) ∈ (decode f.code).instructions := by
  obtain ⟨k, -, rfl⟩ := h.isFetchOffset_iff.1 hoffset
  rw [h.code_eq] at hi
  rw [h.code_eq, decode_encodeAll h.wellFormed]
  cases hk : is[k]? with
  | none =>
    rw [offsetAt_of_length_le (List.getElem?_eq_none_iff.1 hk), decodeAt_encodeAll_end h.wellFormed] at hi
    cases hi
  | some found =>
    rw [decodeAt_encodeAll h.wellFormed hk] at hi
    cases hi
    exact mem_withOffsets.2 ⟨k, hk, (Nat.zero_add _).symm⟩

theorem Function.VerifiedBy.mem_of_decodeAt {f : Function} {is : List Instruction} (h : f.VerifiedBy is) {offset : Nat}
    (hoffset : IsFetchOffset f.code offset) {i : Instruction} (hi : Instruction.decodeAt f.code offset = .ok i) :
    i ∈ is := by
  have hmem := h.mem_instructions_of_decodeAt hoffset hi
  rw [h.code_eq, decode_encodeAll h.wellFormed] at hmem
  obtain ⟨k, hk, -⟩ := mem_withOffsets.1 hmem
  exact List.mem_of_getElem? hk

theorem Function.VerifiedBy.le_size_of_isFetchOffset {f : Function} {is : List Instruction} (h : f.VerifiedBy is)
    {offset : Nat} (hoffset : IsFetchOffset f.code offset) : offset ≤ f.code.size := by
  obtain ⟨k, -, rfl⟩ := h.isFetchOffset_iff.1 hoffset
  rw [h.size_code]
  exact offsetAt_le is k

/-- Where the sweep has found an instruction one is read; only the end of the code is left. -/
theorem Function.VerifiedBy.eq_size_of_decodeAt {f : Function} {is : List Instruction} (h : f.VerifiedBy is)
    {offset : Nat} (hoffset : IsFetchOffset f.code offset) {e : CodeError}
    (he : Instruction.decodeAt f.code offset = .error e) : offset = f.code.size := by
  obtain ⟨k, -, rfl⟩ := h.isFetchOffset_iff.1 hoffset
  cases hk : is[k]? with
  | none => rw [h.size_code, offsetAt_of_length_le (List.getElem?_eq_none_iff.1 hk)]
  | some i =>
    rw [h.code_eq, decodeAt_encodeAll h.wellFormed hk] at he
    cases he

/-! ### The single checks -/

theorem isBranchTarget_iff {f : Function} {is : List Instruction} (hwf : WellFormedSequence is)
    (hcode : f.code = encodeAll is) {target : Int} :
    isBranchTarget f.code (withOffsets 0 is) target = true ↔ ∃ j, j ≤ is.length ∧ target = offsetAt is j := by
  unfold isBranchTarget
  rw [Bool.or_eq_true, beq_iff_eq, List.any_eq_true, hcode, size_encodeAll hwf]
  constructor
  · rintro (rfl | ⟨⟨offset, i⟩, hmem, heq⟩)
    · exact ⟨is.length, Nat.le_refl _, by rw [offsetAt_of_length_le (Nat.le_refl _)]⟩
    · obtain ⟨k, hk, ho⟩ := mem_withOffsets.1 hmem
      have hlt := (List.getElem?_eq_some_iff.1 hk).1
      refine ⟨k, by omega, ?_⟩
      simp only [beq_iff_eq] at heq
      omega
  · rintro ⟨j, hj, rfl⟩
    rcases Nat.lt_or_eq_of_le hj with hlt | rfl
    · have hi := List.getElem?_eq_getElem hlt
      exact .inr ⟨(offsetAt is j, is[j]), mem_withOffsets.2 ⟨j, hi, by omega⟩, by simp⟩
    · exact .inl (by rw [offsetAt_of_length_le (Nat.le_refl _)])

theorem instructionFault?_eq_none_iff {f : Function} {is : List Instruction} (hwf : WellFormedSequence is)
    (hcode : f.code = encodeAll is) (offset : Nat) (i : Instruction) :
    f.instructionFault? (withOffsets 0 is) offset i = none ↔
      (∀ target, i.operand = .codeAddress target → ∃ j, j ≤ is.length ∧ target.toInt = offsetAt is j) ∧
      (∀ index, i.operand = .localIndex index → index.toNat < f.localOffsets.length) := by
  unfold Function.instructionFault?
  cases i.operand with
  | none | immediate | dataAddress => simp
  | codeAddress target => simp [isBranchTarget_iff hwf hcode]
  | localIndex index => simp

/-- Looking up an offset finds the instruction that starts there. -/
theorem lookup_withOffsets {start offset : Nat} {is : List Instruction} {i : Instruction} :
    (withOffsets start is).lookup offset = some i ↔ ∃ k, is[k]? = some i ∧ offset = start + offsetAt is k := by
  induction is generalizing start with
  | nil => simp [withOffsets]
  | cons first is ih =>
    rw [withOffsets, List.lookup_cons]
    by_cases hstart : offset = start
    · subst hstart
      simp only [beq_self_eq_true, Option.some.injEq]
      constructor
      · rintro rfl
        exact ⟨0, rfl, by simp⟩
      · rintro ⟨k, hk, ho⟩
        -- every later instruction starts behind the first one
        cases k with
        | zero => exact Option.some.inj hk
        | succ k =>
          have hpos := first.length_pos
          rw [offsetAt_cons_succ] at ho
          omega
    · have hne : (offset == start) = false := by simpa using hstart
      simp only [hne, ih]
      constructor
      · rintro ⟨k, hk, ho⟩
        exact ⟨k + 1, hk, by rw [offsetAt_cons_succ]; omega⟩
      · rintro ⟨k, hk, ho⟩
        cases k with
        | zero => exact absurd ho (by simpa using hstart)
        | succ k => exact ⟨k, hk, by rw [offsetAt_cons_succ] at ho; omega⟩

theorem loadFault?_eq_none_iff {is : List Instruction} {block offset : Nat} :
    loadFault? (withOffsets 0 is) block offset = none ↔ HasLoadAt is offset := by
  unfold loadFault?
  cases hlookup : (withOffsets 0 is).lookup offset with
  | none =>
    refine iff_of_false (by simp) ?_
    rintro ⟨k, i, hk, -, ho⟩
    rw [lookup_withOffsets.2 ⟨k, hk, by omega⟩] at hlookup
    cases hlookup
  | some i =>
    obtain ⟨k, hk, ho⟩ := lookup_withOffsets.1 hlookup
    constructor
    · intro h
      refine ⟨k, i, hk, Decidable.byContradiction fun hne => ?_, by omega⟩
      simp [hne] at h
    · rintro ⟨j, i', hj, hop, ho'⟩
      rw [lookup_withOffsets.2 ⟨j, hj, by omega⟩] at hlookup
      cases hlookup
      simp [hop]

theorem Function.mem_loadSites {f : Function} {site : Nat × Nat} :
    site ∈ f.loadSites ↔
      ∃ block, f.staticData[site.1]? = some block ∧ ∃ offset ∈ block.loadOffsets, site.2 = offset.toNat := by
  obtain ⟨k, o⟩ := site
  simp only [Function.loadSites, List.mem_flatMap, List.mem_map, Prod.mk.injEq, Prod.exists,
    List.mem_zipIdx_iff_getElem?]
  constructor
  · rintro ⟨block, j, hblock, offset, hoffset, rfl, rfl⟩
    exact ⟨block, hblock, offset, hoffset, rfl⟩
  · rintro ⟨block, hblock, offset, hoffset, rfl⟩
    exact ⟨block, k, hblock, offset, hoffset, rfl, rfl⟩

/-! ### All checks together -/

theorem fault?_eq_none_iff {f : Function} {is : List Instruction} (hwf : WellFormedSequence is)
    (hcode : f.code = encodeAll is) :
    f.fault? (withOffsets 0 is) = none ↔
      (∀ i ∈ is, ∀ target, i.operand = .codeAddress target → ∃ j, j ≤ is.length ∧ target.toInt = offsetAt is j) ∧
      (∀ i ∈ is, ∀ index, i.operand = .localIndex index → index.toNat < f.localOffsets.length) ∧
      (∀ block ∈ f.staticData, ∀ offset ∈ block.loadOffsets, HasLoadAt is offset.toNat) := by
  unfold Function.fault?
  rw [Option.or_eq_none_iff, List.findSome?_eq_none_iff, List.findSome?_eq_none_iff]
  simp only [instructionFault?_eq_none_iff hwf hcode, loadFault?_eq_none_iff]
  constructor
  · rintro ⟨hinstructions, hloads⟩
    have hmem : ∀ i ∈ is, ∃ offset, (offset, i) ∈ withOffsets 0 is := by
      intro i hi
      obtain ⟨k, hk⟩ := List.mem_iff_getElem?.1 hi
      exact ⟨_, mem_withOffsets.2 ⟨k, hk, rfl⟩⟩
    refine ⟨fun i hi => ?_, fun i hi => ?_, fun block hblock offset hoffset => ?_⟩
    · obtain ⟨o, ho⟩ := hmem i hi
      exact (hinstructions _ ho).1
    · obtain ⟨o, ho⟩ := hmem i hi
      exact (hinstructions _ ho).2
    · obtain ⟨b, hb⟩ := List.mem_iff_getElem?.1 hblock
      exact hloads (b, offset.toNat) (Function.mem_loadSites.2 ⟨block, hb, offset, hoffset, rfl⟩)
  · rintro ⟨hbranches, hlocals, hloads⟩
    refine ⟨?_, ?_⟩
    · rintro ⟨offset, i⟩ hmem
      obtain ⟨k, hk, -⟩ := mem_withOffsets.1 hmem
      have hi := List.mem_of_getElem? hk
      exact ⟨hbranches i hi, hlocals i hi⟩
    · intro site hsite
      obtain ⟨block, hb, offset, hoffset, ho⟩ := Function.mem_loadSites.1 hsite
      rw [ho]
      exact hloads block (List.mem_of_getElem? hb) offset hoffset

/-- If the frame has no flaw and the code can be read, then the faults decide. -/
theorem Function.verify_of_code {f : Function} {is : List Instruction} (hwf : WellFormedSequence is)
    (hcode : f.code = encodeAll is) (hframe : frameFlaw? f.localOffsets f.localSize = none) :
    f.verify = match f.fault? (withOffsets 0 is) with
      | some e => .error e
      | none => .ok () := by
  have hdecode : (decode f.code).toExcept = .ok (withOffsets 0 is) := by
    rw [hcode, decode_encodeAll hwf]
    rfl
  cases hfault : f.fault? (withOffsets 0 is) with
  | some e => simp only [Function.verify, hframe, hdecode, hfault]
  | none => simp only [Function.verify, hframe, hdecode, hfault]

/-- A function is accepted exactly if some sequence of instructions makes it acceptable. -/
theorem Function.verify_eq_ok_iff {f : Function} : f.verify = .ok () ↔ ∃ is, f.VerifiedBy is := by
  constructor
  · intro h
    unfold Function.verify at h
    split at h
    · cases h
    · rename_i hframe
      unfold Decoding.toExcept at h
      cases hfailure : (decode f.code).failure with
      | some e =>
        rw [hfailure] at h
        cases h
      | none =>
        rw [hfailure] at h
        obtain ⟨is, hwf, hcode, hinstructions⟩ := exists_sequence_of_decode hfailure
        dsimp only at h
        split at h
        · cases h
        · rename_i hfault
          rw [hinstructions, fault?_eq_none_iff hwf hcode] at hfault
          exact ⟨is, hwf, hcode, hframe, hfault.1, hfault.2.1, hfault.2.2⟩
  · rintro ⟨is, hwf, hcode, hframe, hbranches, hlocals, hloads⟩
    have hfault := (fault?_eq_none_iff hwf hcode).2 ⟨hbranches, hlocals, hloads⟩
    rw [Function.verify_of_code hwf hcode hframe, hfault]

end StackMachine
